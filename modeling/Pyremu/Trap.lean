import Pyremu.Imsic
import Pyremu.Pmp

/-!
# Trap delivery

Traps taken below machine mode go to S when `medeleg` or `mideleg` says so and
to M otherwise. Delivery rewrites `pc`, so handlers that deliver return an
advance of zero.
-/

namespace Pyremu

namespace Exc

def instrAccessFault : Word := 1
def illInstr : Word := 2
def breakpoint : Word := 3
def ldMisaligned : Word := 4
def ldAccessFault : Word := 5
def stMisaligned : Word := 6
def stAccessFault : Word := 7
def ecallUmode : Word := 8
def ecallSmode : Word := 9
def ecallMmode : Word := 11

end Exc

def mcauseVal (code : Word) (isInterrupt : Bool) : Word :=
  if isInterrupt then code ||| bit 63 else code

/-- `MSTATUS` bit positions used by delivery and return. -/
def mstatusSie : Word := bit 1
def mstatusMie : Word := bit 3
def mstatusSpie : Word := bit 5
def mstatusMpie : Word := bit 7
def mstatusSpp : Word := bit 8
def mstatusMpp : Word := 3#64 <<< 11
def mstatusMprv : Word := bit 17

def modeToMpp : Mode → Word
  | .U => 0
  | .S => 1
  | .M => 3
  | _ => 0

def modeToSpp : Mode → Word
  | .U => 0
  | .S => 1
  | _ => 0

def isInterrupt (code : Word) : Bool := code.getLsbD 63

def excCode (code : Word) : Word := code &&& 0x7fffffffffffffff

/-- `pc` after the jump through `xtvec`. -/
def trapTarget (tvec code : Word) : Word :=
  if tvec &&& 3 = 0 ∨ !isInterrupt code then tvec &&& ~~~3 else (tvec &&& ~~~3) + 4 * excCode code

/-- `xPIE` takes the old `xIE`, and `xIE` is cleared. -/
def stackIe (mstatus ie pie : Word) : Word :=
  (if mstatus &&& ie ≠ 0 then mstatus ||| pie else mstatus &&& ~~~pie) &&& ~~~ie

/-- Automatic clearing of a software interrupt outside AIA delivery. -/
def clearSoftOnTrap (s : HartState) (cause : Word) : HartState :=
  imsicClearIpiOnTrap (s.clearMip (if cause = 3 then bit 3 else bit 1)) cause

def deliverTrapSmode (s : HartState) (code tval : Word) : HartState :=
  let s' : HartState :=
    { s with
      reservationValid := false, reservationAddr := 0, waiting := false
      sepc := s.pc, scause := code, stval := tval
      mstatus := (stackIe s.mstatus mstatusSie mstatusSpie &&& ~~~mstatusSpp) |||
        (modeToSpp s.mode <<< 8)
      mode := .S
      pc := trapTarget s.stvec code
      traps := s.traps ++ [⟨code, tval, s.pc, .S⟩] }
  if !isInterrupt code then s'
  else
    let inAiaS := s.imsicS.present && decide (s.imsicS.eidelivery ≠ 0)
    if (excCode code = 3 ∨ excCode code = 1) ∧ !inAiaS then clearSoftOnTrap s' (excCode code)
    else s'

def deliverTrapMmode (s : HartState) (code tval : Word) : HartState :=
  let inAia := s.imsicM.present && decide (s.imsicM.eidelivery ≠ 0)
  let s := if isInterrupt code ∧ excCode code = 3 ∧ !inAia then clearSoftOnTrap s 3 else s
  { s with
    reservationValid := false, reservationAddr := 0, waiting := false
    mepc := s.pc, mcause := code, mtval := tval
    mstatus := ((stackIe s.mstatus mstatusMie mstatusMpie &&& ~~~mstatusMpp) |||
      (modeToMpp s.mode <<< 11)) &&& ~~~mstatusMprv
    mode := .M
    pc := trapTarget s.mtvec code
    traps := s.traps ++ [⟨code, tval, s.pc, .M⟩] }

/-- The shift by the cause is taken modulo 64, as on the release build. -/
def delegated (s : HartState) (code : Word) : Bool :=
  decide (s.mode ≠ .M) &&
    (if isInterrupt code then s.mideleg else s.medeleg).getLsbD ((excCode code).toNat % 64)

def deliverTrap (s : HartState) (code tval : Word) : HartState :=
  if delegated s code then deliverTrapSmode s code tval else deliverTrapMmode s code tval

def deliverIllegalInstruction (s : HartState) (tval : Word) : HartState :=
  deliverTrap s (mcauseVal Exc.illInstr false) tval

/-! ### Status bits across a delivery -/

theorem stackIe_getLsbD (m : Word) {a b i : Nat} (ha : a < 64) (hb : b < 64) (hia : i ≠ a)
    (hib : i ≠ b) :
    (stackIe m (bit a) (bit b)).getLsbD i = m.getLsbD i := by
  unfold stackIe
  rw [getLsbD_and_not_bit _ ha hia]
  split
  · exact getLsbD_or_bit m hb hib
  · exact getLsbD_and_not_bit m hb hib

theorem modeToSpp_getLsbD (m : Mode) {i : Nat} (h : i ≠ 8) : (modeToSpp m <<< 8).getLsbD i = false := by
  have hz : (modeToSpp m <<< 8) = 0 ∨ (modeToSpp m <<< 8) = bit 8 := by
    cases m <;> decide
  rcases hz with hz | hz <;> rw [hz]
  · simp
  · rw [getLsbD_bit 8 i (by decide)]; simp [h]

theorem modeToMpp_getLsbD (m : Mode) {i : Nat} (h : i ≠ 11) (h' : i ≠ 12) :
    (modeToMpp m <<< 11).getLsbD i = false := by
  have hz : (modeToMpp m <<< 11) = 0 ∨ (modeToMpp m <<< 11) = bit 11 ∨
      (modeToMpp m <<< 11) = bit 11 ||| bit 12 := by
    cases m <;> decide
  rcases hz with hz | hz | hz <;> rw [hz]
  · simp
  · rw [getLsbD_bit 11 i (by decide)]; simp [h]
  · rw [BitVec.getLsbD_or, getLsbD_bit 11 i (by decide), getLsbD_bit 12 i (by decide)]; simp [h, h']

theorem clearSoftOnTrap_mstatus (s : HartState) (cause : Word) :
    (clearSoftOnTrap s cause).mstatus = s.mstatus := by
  simp only [clearSoftOnTrap, imsicClearIpiOnTrap]
  repeat' split
  all_goals rfl

theorem clearSoftOnTrap_mode (s : HartState) (cause : Word) :
    (clearSoftOnTrap s cause).mode = s.mode := by
  simp only [clearSoftOnTrap, imsicClearIpiOnTrap]
  repeat' split
  all_goals rfl

/-- Delivery to S mode moves `SIE`, `SPIE` and `SPP` only. -/
theorem deliverTrapSmode_mstatus (s : HartState) (code tval : Word) {i : Nat} (h1 : i ≠ 1)
    (h5 : i ≠ 5) (h8 : i ≠ 8) :
    (deliverTrapSmode s code tval).mstatus.getLsbD i = s.mstatus.getLsbD i := by
  have hm : (deliverTrapSmode s code tval).mstatus =
      (stackIe s.mstatus mstatusSie mstatusSpie &&& ~~~mstatusSpp) ||| (modeToSpp s.mode <<< 8) := by
    simp only [deliverTrapSmode]
    split
    · rfl
    · split
      · rw [clearSoftOnTrap_mstatus]
      · rfl
  rw [hm, BitVec.getLsbD_or, modeToSpp_getLsbD _ h8, Bool.or_false, mstatusSpp,
    getLsbD_and_not_bit _ (by decide) h8]
  exact stackIe_getLsbD _ (by decide) (by decide) h1 h5

/-- Delivery to M mode moves `MIE`, `MPIE` and `MPP`, and clears `MPRV`. -/
theorem deliverTrapMmode_mstatus (s : HartState) (code tval : Word) {i : Nat} (h3 : i ≠ 3)
    (h7 : i ≠ 7) (h11 : i ≠ 11) (h12 : i ≠ 12) (h17 : i ≠ 17) :
    (deliverTrapMmode s code tval).mstatus.getLsbD i = s.mstatus.getLsbD i := by
  have hmpp : mstatusMpp = bit 11 ||| bit 12 := by decide
  have hm : (deliverTrapMmode s code tval).mstatus =
      ((stackIe s.mstatus mstatusMie mstatusMpie &&& ~~~mstatusMpp) |||
        (modeToMpp s.mode <<< 11)) &&& ~~~mstatusMprv := by
    simp only [deliverTrapMmode]
    split
    · rw [clearSoftOnTrap_mstatus, clearSoftOnTrap_mode]
    · rfl
  rw [hm, mstatusMprv, getLsbD_and_not_bit _ (by decide) h17, BitVec.getLsbD_or,
    modeToMpp_getLsbD _ h11 h12, Bool.or_false, hmpp, BitVec.not_or, ← BitVec.and_assoc,
    getLsbD_and_not_bit _ (by decide) h12, getLsbD_and_not_bit _ (by decide) h11]
  exact stackIe_getLsbD _ (by decide) (by decide) h3 h7

/-- Above `MPP` a delivery moves `MPRV` only. -/
theorem deliverTrap_mstatus (s : HartState) (code tval : Word) {i : Nat}
    (hi : 13 ≤ i ∧ i ≠ 17) :
    (deliverTrap s code tval).mstatus.getLsbD i = s.mstatus.getLsbD i := by
  simp only [deliverTrap]
  split
  · exact deliverTrapSmode_mstatus s code tval (by omega) (by omega) (by omega)
  · exact deliverTrapMmode_mstatus s code tval (by omega) (by omega) (by omega) (by omega)
      (by omega)

/-! ## Privileged returns and WFI -/

def privMret (s : HartState) (instr : BitVec 32) : HartState × Word :=
  if s.mode ≠ .M then (deliverIllegalInstruction s (instr.setWidth 64), 0)
  else
    let mode := if mpp s.mstatus = 0 then Mode.U else if mpp s.mstatus = 1 then .S else .M
    let m := s.mstatus &&& ~~~(bit 3)
    let m := if s.mstatus.getLsbD 7 then m ||| bit 3 else m
    ({ s with mode := mode, mstatus := (m ||| bit 7) &&& ~~~mstatusMpp, pc := s.mepc,
              waiting := false }, 0)

def privSret (s : HartState) (instr : BitVec 32) : HartState × Word :=
  if s.mode.rank < Mode.S.rank then (deliverIllegalInstruction s (instr.setWidth 64), 0)
  else
    let mode := if s.mstatus.getLsbD 8 then Mode.S else .U
    let m := s.mstatus &&& ~~~(bit 1)
    let m := if s.mstatus.getLsbD 5 then m ||| bit 1 else m
    ({ s with mode := mode, mstatus := (m ||| bit 5) &&& ~~~(bit 8), pc := s.sepc,
              waiting := false }, 0)

/-- MRET moves `MIE`, `MPIE` and `MPP` only. -/
theorem privMret_mstatus (s : HartState) (instr : BitVec 32) (hm : s.mode = .M) {i : Nat}
    (h3 : i ≠ 3) (h7 : i ≠ 7) (h11 : i ≠ 11) (h12 : i ≠ 12) :
    (privMret s instr).1.mstatus.getLsbD i = s.mstatus.getLsbD i := by
  have hmpp : mstatusMpp = bit 11 ||| bit 12 := by decide
  simp only [privMret, hm, ne_eq, not_true_eq_false, ↓reduceIte]
  rw [hmpp, BitVec.not_or, ← BitVec.and_assoc, getLsbD_and_not_bit _ (by decide) h12,
    getLsbD_and_not_bit _ (by decide) h11, getLsbD_or_bit _ (by decide) h7]
  split
  · rw [getLsbD_or_bit _ (by decide) h3, getLsbD_and_not_bit _ (by decide) h3]
  · rw [getLsbD_and_not_bit _ (by decide) h3]

/-- SRET moves `SIE`, `SPIE` and `SPP` only. -/
theorem privSret_mstatus (s : HartState) (instr : BitVec 32) (hm : ¬ s.mode.rank < Mode.S.rank)
    {i : Nat} (h1 : i ≠ 1) (h5 : i ≠ 5) (h8 : i ≠ 8) :
    (privSret s instr).1.mstatus.getLsbD i = s.mstatus.getLsbD i := by
  simp only [privSret, if_neg hm]
  rw [getLsbD_and_not_bit _ (by decide) h8, getLsbD_or_bit _ (by decide) h5]
  split
  · rw [getLsbD_or_bit _ (by decide) h1, getLsbD_and_not_bit _ (by decide) h1]
  · rw [getLsbD_and_not_bit _ (by decide) h1]

def privWfi (s : HartState) (instr : BitVec 32) : HartState × Word :=
  if s.mstatus.getLsbD 21 ∧ s.mode ≠ .M then
    (deliverIllegalInstruction s (instr.setWidth 64), 0)
  else if s.wfiWoken then ({ s with wfiWoken := false }, 4)
  else if s.mip &&& s.mie ≠ 0 then (s, 4)
  else ({ s with waiting := true }, 4)

end Pyremu
