import Pyremu.Lib.Bits
import Pyremu.Outcome

/-!
# Precise load exceptions

A faulting load should leave the registers alone, so that it can be executed
again after the handler. The compressed loads learn of a trap only by a change
of mode. When the trap is taken without one they go on and write zero.
-/

namespace Pyremu

/-! ## Registers across a trap -/

/-- The architectural registers a load may write are the same. -/
def SameRegs (s s' : HartState) : Prop :=
  s'.gprs = s.gprs ∧ s'.fprs = s.fprs ∧ s'.mstatus &&& mstatusFs = s.mstatus &&& mstatusFs

namespace SameRegs

variable {s s' s'' : HartState}

theorem trans (h : SameRegs s s') (h' : SameRegs s' s'') : SameRegs s s'' :=
  ⟨h'.1.trans h.1, h'.2.1.trans h.2.1, h'.2.2.trans h.2.2⟩

theorem of_quiet (h : QuietFrame s s') : SameRegs s s' := by
  obtain ⟨_, ⟨_, _, _, _, _, _, rfl⟩, ⟨_, _, _, _, _, _, rfl⟩⟩ := h
  exact ⟨rfl, rfl, rfl⟩

end SameRegs

theorem mstatusFs_getLsbD {i : Nat} (h : mstatusFs.getLsbD i = true) : i = 13 ∨ i = 14 := by
  have hf : mstatusFs = bit 13 ||| bit 14 := by decide
  rw [hf, BitVec.getLsbD_or, getLsbD_bit 13 i (by decide), getLsbD_bit 14 i (by decide)] at h
  simpa using h

theorem deliverTrap_regs (s : HartState) (code tval : Word) (h : isInterrupt code = false) :
    SameRegs s (deliverTrap s code tval) := by
  have hst : ∀ i, mstatusFs.getLsbD i = true →
      (deliverTrap s code tval).mstatus.getLsbD i = s.mstatus.getLsbD i := by
    intro i hi
    have := mstatusFs_getLsbD hi
    exact deliverTrap_mstatus s code tval (by omega)
  refine ⟨?_, ?_, BitFields.and_mask_congr hst⟩
  · simp only [deliverTrap]
    split
    · simp [deliverTrapSmode, h]
    · simp [deliverTrapMmode, h]
  · simp only [deliverTrap]
    split
    · simp [deliverTrapSmode, h]
    · simp [deliverTrapMmode, h]

theorem Faulted.regs {s s' : HartState} {code : Word} (h : Faulted s s' code) : SameRegs s s' := by
  obtain ⟨s₁, tval, hq, hi, rfl⟩ := h
  exact (SameRegs.of_quiet hq).trans (deliverTrap_regs s₁ code tval hi)

/-! ## The property -/

/-- Causes of access faults and page faults. -/
def isMemFault (code : Word) : Bool := [1#64, 5, 7, 12, 13, 15].contains code

/-- If a page fault or an access fault was delivered, the registers are as before and
the target level's `xepc` names the instruction. -/
def PreciseFault (s s' : HartState) : Prop :=
  ∀ t, s'.traps = s.traps ++ [t] → isMemFault t.code = true →
    SameRegs s s' ∧ (t.level = .M → s'.mepc = s.pc) ∧ (t.level = .S → s'.sepc = s.pc)

theorem PreciseFault.of_no_trap {s s' : HartState} (h : s'.traps = s.traps) : PreciseFault s s' := by
  intro t ht
  simp [h] at ht

theorem PreciseFault.of_faulted {s s' : HartState} {code : Word} (h : Faulted s s' code) :
    PreciseFault s s' := by
  obtain ⟨t, htr, _, hlevel⟩ := h.trapped
  intro t' ht' _
  have heq : t' = t := by simpa [htr] using ht'.symm
  subst heq
  refine ⟨h.regs, fun hM => ?_, fun hS => ?_⟩
  · obtain ⟨_, _, hepc, _⟩ | ⟨hl, _⟩ := hlevel
    · exact hepc
    · rw [hM] at hl; cases hl
  · obtain ⟨hl, _⟩ | ⟨_, _, hepc, _⟩ := hlevel
    · rw [hS] at hl; cases hl
    · exact hepc

/-! ## The compressed loads -/

inductive Dest where
  | gpr (rd : BitVec 5)
  | fpr (rd : BitVec 5)
  deriving DecidableEq, Repr

/-- What a compressed load does with the value. -/
def Dest.write (n : Nat) : Dest → World → Word → World
  | .gpr rd, w, v => w.writeGpr rd (if n = 4 then sext32 v else v)
  | .fpr rd, w, v => w.setFpr rd v

/-- C.FLD, C.LW, C.LD, C.FLDSP, C.LWSP and C.LDSP. -/
def isCompressedLoad (cf : CompressedFields) : Bool :=
  (cf.quadrant == 0 || cf.quadrant == 2) &&
    (cf.funct3 == 1 || cf.funct3 == 2 || cf.funct3 == 3)

/-- Address, size and destination, `none` when the encoding is illegal in this state. -/
def compressedLoadOf (s : HartState) (cf : CompressedFields) : Option (Word × Nat × Dest) :=
  let addr := readGpr s cf.rs1p + cf.imm
  let spAddr := s.gprs 2 + cf.imm
  if cf.quadrant = 0 then
    if cf.funct3 = 1 then some (addr, 8, .fpr cf.rdp)
    else if cf.funct3 = 2 then some (addr, 4, .gpr cf.rd)
    else some (addr, 8, .gpr cf.rd)
  else if cf.funct3 = 1 then
    if fpOff s then none else some (spAddr, 8, .fpr cf.rd)
  else if cf.rd = 0 then none
  else if cf.funct3 = 2 then some (spAddr, 4, .gpr cf.rd)
  else some (spAddr, 8, .gpr cf.rd)

/-- Every compressed load is the common pattern at its own address and destination. -/
theorem handleCompressed_load (cfg : Features) (w : World) (half : BitVec 16) (instrWord : BitVec 32)
    (g : InstrToBeExec) (h : isCompressedLoad (decodeCompressed half) = true) :
    handleCompressed cfg w half instrWord g =
      match compressedLoadOf w.hart (decodeCompressed half) with
      | none => (w.illegal instrWord, g, 0)
      | some (va, n, dest) => compressedLoad cfg w va n instrWord g (dest.write n) := by
  simp only [handleCompressed]
  generalize decodeCompressed half = cf at h ⊢
  simp only [isCompressedLoad, Bool.and_eq_true, Bool.or_eq_true, beq_iff_eq] at h
  obtain ⟨hq | hq, (hf | hf) | hf⟩ := h <;>
    simp only [hq, hf, handleC0, handleC2, compressedLoadOf]
  · rfl
  · rfl
  · rfl
  · simp only [BitVec.ofNat_eq_ofNat, BitVec.reduceEq, ↓reduceIte]
    split <;> rfl
  · simp only [BitVec.ofNat_eq_ofNat, BitVec.reduceEq, ↓reduceIte]
    split <;> rfl
  · simp only [BitVec.ofNat_eq_ofNat, BitVec.reduceEq, ↓reduceIte]
    split <;> rfl

/-- The trap leaves the mode as it is. -/
def takenInPlace (s : HartState) (code : Word) : Prop :=
  s.mode = .M ∨ (s.mode = .S ∧ delegated s code = true)

/-- Writing zero would be seen. -/
def Dest.overwritten (s : HartState) : Dest → Prop
  | .gpr rd => rd ≠ 0 ∧ s.gprs rd ≠ 0
  | .fpr rd => s.fprs rd ≠ 0 ∨ s.mstatus &&& mstatusFs ≠ mstatusFs

/-- A fault that keeps the mode, at a destination that is not already zero. -/
def ClobbersDest (cfg : Features) (w : World) (instrWord : BitVec 32) : Prop :=
  ∃ va n dest code,
    compressedLoadOf w.hart (decodeCompressed (instrWord.setWidth 16)) = some (va, n, dest) ∧
      accessFaultCode cfg w va .read n Exc.ldAccessFault = some code ∧
      takenInPlace w.hart code ∧ dest.overwritten w.hart

theorem deliverTrap_mode (s : HartState) (code tval : Word) (h : isInterrupt code = false) :
    (deliverTrap s code tval).mode = if delegated s code then .S else .M := by
  simp only [deliverTrap]
  split
  · simp [deliverTrapSmode, h]
  · simp [deliverTrapMmode, h]

theorem QuietFrame.delegated {s s' : HartState} (h : QuietFrame s s') (code : Word) :
    delegated s' code = delegated s code := by
  obtain ⟨_, ⟨_, _, _, _, _, _, rfl⟩, ⟨_, _, _, _, _, _, rfl⟩⟩ := h
  rfl

theorem Faulted.mode_iff {s s' : HartState} {code : Word} (h : Faulted s s' code) :
    s'.mode = s.mode ↔ takenInPlace s code := by
  obtain ⟨s₁, tval, hq, hi, rfl⟩ := h
  rw [deliverTrap_mode s₁ code tval hi, hq.delegated]
  cases hd : Pyremu.delegated s code with
  | true =>
    have hM : s.mode ≠ .M := by
      intro hm
      simp [Pyremu.delegated, hm] at hd
    simp [takenInPlace, hd, hM, eq_comm]
  | false => simp [takenInPlace, hd, eq_comm]

/-- The delivered trap is a page fault or an access fault. -/
theorem accessFaultCode_read {cfg : Features} {w : World} {va code : Word} {n : Nat}
    (h : accessFaultCode cfg w va .read n Exc.ldAccessFault = some code) : isMemFault code = true := by
  have hr := translateVa_result cfg w.hart w.mem va .read w.pmp
  simp only [accessFaultCode] at h
  split at h <;> rename_i heq
  · rw [heq] at hr
    cases h
    simp only [TranslateOk] at hr
    subst hr
    decide
  · cases h; decide
  · split at h
    · cases h
    · cases h; decide

/-- The log entry of a fault carries its code. -/
theorem Faulted.log {s s' : HartState} {code : Word} (h : Faulted s s' code) :
    ∃ t, s'.traps = s.traps ++ [t] ∧ t.code = code := by
  obtain ⟨s₁, tval, hq, hi, rfl⟩ := h
  simp only [← hq.control.2.2, deliverTrap]
  split
  · simp only [deliverTrapSmode, hi, Bool.not_false, ↓reduceIte]
    exact ⟨_, rfl, rfl⟩
  · simp only [deliverTrapMmode, hi, Bool.false_eq_true, false_and, ↓reduceIte]
    exact ⟨_, rfl, rfl⟩

/-- Writing zero to the destination keeps the registers unless it is seen. -/
theorem Dest.write_zero_regs {w w' : World} (n : Nat) (dest : Dest) (h : SameRegs w.hart w'.hart) :
    SameRegs w.hart (dest.write n w' 0).hart ↔ ¬ dest.overwritten w.hart := by
  obtain ⟨hg, hf, hm⟩ := h
  cases dest with
  | gpr rd =>
    have hz : (if n = 4 then sext32 0 else 0) = (0 : Word) := by
      split <;> decide
    simp only [Dest.write, Dest.overwritten, hz, World.writeGpr, World.setHart, writeGpr]
    by_cases hrd : rd = 0
    · simp [hrd, SameRegs, hg, hf, hm]
    · simp only [hrd, ↓reduceIte, SameRegs, hg, hf, hm, and_true, ne_eq, not_false_eq_true,
        true_and, not_not, Function.update_eq_self_iff]
      exact eq_comm
  | fpr rd =>
    have hfs : (w'.hart.mstatus ||| (mstatusFs ||| mstatusSd)) &&& mstatusFs = mstatusFs := by
      apply BitVec.eq_of_getLsbD_eq
      intro i _
      simp only [BitVec.getLsbD_and, BitVec.getLsbD_or]
      cases mstatusFs.getLsbD i <;> simp
    simp only [Dest.write, Dest.overwritten, World.setFpr, World.setHart, setFsDirty, writeFpr,
      SameRegs, hg, hf, hfs, true_and, ne_eq, not_or, not_not, Function.update_eq_self_iff]
    exact and_congr eq_comm eq_comm

/-! ## All loads -/

/-- The integer loads of the base encoding and the compressed loads. -/
inductive LoadInstr where
  | word (instr : BitVec 32) (h : (decodeFields instr).opcode = 0b0000011)
  | compressed (instrWord : BitVec 32)
      (h : isCompressedLoad (decodeCompressed (instrWord.setWidth 16)) = true)

def LoadInstr.exec (cfg : Features) (sf : SoftFloat) (w : World) : LoadInstr → World
  | .word instr _ => execWord cfg sf w instr
  | .compressed instrWord _ => execCompressed cfg w instrWord

/-- When a faulting load overwrites its destination. -/
def LoadInstr.Clobbers (cfg : Features) (w : World) : LoadInstr → Prop
  | .word _ _ => False
  | .compressed instrWord _ => ClobbersDest cfg w instrWord

/-- Advancing `pc` is the only thing `advance_pc` does. -/
theorem advancePc_frame (s : HartState) (adv before : Word) :
    ∃ pc, advancePc s adv before = { s with pc := pc } := by
  simp only [advancePc]
  split
  · exact ⟨_, rfl⟩
  · exact ⟨s.pc, rfl⟩

theorem PreciseFault.advancePc_iff {s s' : HartState} (adv before : Word) :
    PreciseFault s (advancePc s' adv before) ↔ PreciseFault s s' := by
  obtain ⟨pc, h⟩ := advancePc_frame s' adv before
  rw [h]
  rfl

theorem execWord_load_precise (cfg : Features) (sf : SoftFloat) (w : World) (instr : BitVec 32)
    (h : (decodeFields instr).opcode = 0b0000011) :
    PreciseFault w.hart (execWord cfg sf w instr).hart := by
  have hd : dispatchConcurrent cfg sf w (decodeFields instr) instr =
      handleLoad cfg w (decodeFields instr) instr := by
    simp only [dispatchConcurrent, h]
    rfl
  have ho := handleLoad_outcome cfg w (decodeFields instr) instr
  simp only [execWord, hd]
  generalize handleLoad cfg w (decodeFields instr) instr = r at ho
  have hp : PreciseFault w.hart r.1.hart := by
    obtain ⟨_, hc⟩ | ⟨_, code, hf⟩ := ho
    · exact .of_no_trap hc.2.2
    · exact .of_faulted hf
  split
  · exact hp
  · exact (PreciseFault.advancePc_iff _ _).mpr hp

/-- The value a compressed load obtains without a fault leaves no trap behind. -/
theorem loadMemCompressed_cases (cfg : Features) (w : World) (va : Word) (n : Nat)
    (instrWord : BitVec 32) (g : InstrToBeExec) :
    (∃ w' code, loadMemCompressed cfg w va n instrWord g = (w', g, some 0) ∧
      accessFaultCode cfg w va .read n Exc.ldAccessFault = some code ∧
      Faulted w.hart w'.hart code) ∨
    (accessFaultCode cfg w va .read n Exc.ldAccessFault = none ∧
      SameControl w.hart (loadMemCompressed cfg w va n instrWord g).1.hart) := by
  simp only [loadMemCompressed]
  split <;> rename_i heq
  · obtain ⟨code, hcode, hf⟩ := translateAccess_none ldAccessFault_not_interrupt heq
    exact .inl ⟨_, code, rfl, hcode, hf⟩
  · rename_i w1 pa
    refine .inr ⟨accessFaultCode_of_some heq, ?_⟩
    have hc := (translateAccess_some heq).1.hart.control
    have hd := hc.trans (DeviceFrame.serialDevice cfg w1 pa false 0 n).hart.control
    split <;> rename_i hdev <;> rw [hdev] at hd
    · exact hd
    · split <;> exact hd

theorem Dest.write_control (n : Nat) (dest : Dest) (w : World) (v : Word) :
    SameControl w.hart (dest.write n w v).hart := by
  cases dest with
  | gpr rd => exact .writeGpr _ _ _
  | fpr rd => exact ⟨rfl, rfl, rfl⟩

/-- Where the traps of the write and of the fault are recorded is the same. -/
theorem Dest.write_epc (n : Nat) (dest : Dest) (w : World) (v : Word) :
    (dest.write n w v).hart.mepc = w.hart.mepc ∧ (dest.write n w v).hart.sepc = w.hart.sepc := by
  cases dest with
  | gpr rd =>
    simp only [Dest.write, World.writeGpr, World.setHart, writeGpr]
    split <;> exact ⟨rfl, rfl⟩
  | fpr rd => exact ⟨rfl, rfl⟩

/-- A fault taken in place is precise exactly when the zero is not seen. -/
theorem Dest.write_zero_precise {w w' : World} {code : Word} (n : Nat) (dest : Dest)
    (hf : Faulted w.hart w'.hart code) (hcode : isMemFault code = true) :
    PreciseFault w.hart (dest.write n w' 0).hart ↔ ¬ dest.overwritten w.hart := by
  rw [← Dest.write_zero_regs n dest hf.regs]
  obtain ⟨t, hlog, htc⟩ := hf.log
  have htraps : (dest.write n w' 0).hart.traps = w.hart.traps ++ [t] := by
    rw [(dest.write_control n w' 0).2.2, hlog]
  obtain ⟨hm, hs⟩ := dest.write_epc n w' 0
  constructor
  · intro h
    exact (h t htraps (by rw [htc]; exact hcode)).1
  · intro hregs t' ht' hmem
    obtain ⟨_, h⟩ := PreciseFault.of_faulted hf t' (by rw [hlog, ← htraps, ht']) hmem
    exact ⟨hregs, by rw [hm, hs]; exact h⟩

theorem compressedLoad_precise_iff (cfg : Features) (w : World) (va : Word) (n : Nat)
    (instrWord : BitVec 32) (g : InstrToBeExec) (dest : Dest) :
    PreciseFault w.hart (compressedLoad cfg w va n instrWord g (dest.write n)).1.hart ↔
      ¬ ∃ code, accessFaultCode cfg w va .read n Exc.ldAccessFault = some code ∧
        takenInPlace w.hart code ∧ dest.overwritten w.hart := by
  simp only [compressedLoad]
  obtain ⟨w', code, hl, hcode, hf⟩ | ⟨hnone, hc⟩ := loadMemCompressed_cases cfg w va n instrWord g
  · rw [hl]
    dsimp only
    simp only [hcode, Option.some.injEq, exists_eq_left']
    split <;> rename_i hmode
    · refine iff_of_true (.of_faulted hf) fun h => hmode (hf.mode_iff.mpr h.1)
    · have hin := hf.mode_iff.mp (by simpa using hmode)
      rw [Dest.write_zero_precise n dest hf (accessFaultCode_read hcode)]
      simp [hin]
  · refine iff_of_true (.of_no_trap ?_) (by simp [hnone])
    generalize loadMemCompressed cfg w va n instrWord g = r at hc ⊢
    obtain ⟨w', g', v⟩ := r
    cases v with
    | none => exact hc.2.2
    | some v =>
      dsimp only
      split
      · exact hc.2.2
      · exact (hc.trans (dest.write_control n w' v)).2.2

/-- A load reports its faults precisely unless it is a compressed load whose fault
keeps the mode and whose destination is not already zero. -/
theorem load_fault_precise_iff (cfg : Features) (sf : SoftFloat) (w : World) (l : LoadInstr) :
    PreciseFault w.hart (l.exec cfg sf w).hart ↔ ¬ l.Clobbers cfg w := by
  cases l with
  | word instr h =>
    exact iff_of_true (execWord_load_precise cfg sf w instr h) (fun hc => hc)
  | compressed instrWord h =>
    have hexec : PreciseFault w.hart (execCompressed cfg w instrWord).hart ↔
        PreciseFault w.hart
          (handleCompressed cfg w (instrWord.setWidth 16) instrWord ⟨.normal, 0⟩).1.hart := by
      simp only [execCompressed]
      split
      · rfl
      · exact PreciseFault.advancePc_iff _ _
    simp only [LoadInstr.exec, LoadInstr.Clobbers, ClobbersDest]
    rw [hexec, handleCompressed_load cfg w _ instrWord _ h]
    cases hform : compressedLoadOf w.hart (decodeCompressed (instrWord.setWidth 16)) with
    | none =>
      refine iff_of_true (.of_faulted (deliverTrap_faulted _ _ _ (by decide))) (by simp)
    | some form =>
      obtain ⟨va, n, dest⟩ := form
      simp only [Option.some.injEq, Prod.mk.injEq]
      rw [compressedLoad_precise_iff]
      constructor
      · rintro h ⟨_, _, _, code, ⟨rfl, rfl, rfl⟩, hrest⟩
        exact h ⟨code, hrest⟩
      · rintro h ⟨code, hrest⟩
        exact h ⟨va, n, dest, code, ⟨rfl, rfl, rfl⟩, hrest⟩

/-- `c.lw x8, 0(x8)` in S mode with no PMP entry and access faults delegated to S:
the fault is taken in place and `x8` is zeroed. -/
theorem delegated_c_lw_clobbers_base :
    ¬ PreciseFault
        { HartState.zeroed with
          mode := .S, medeleg := bit 5, gprs := Function.update (fun _ => 0) 8 1 }
        ((LoadInstr.compressed 0x4000 (by decide)).exec ⟨false, false, false, 0⟩ default
          { World.zeroed ⟨0x80000000, 0x10000, 0, 0⟩ with
            hart := { HartState.zeroed with
              mode := .S, medeleg := bit 5, gprs := Function.update (fun _ => 0) 8 1 } }).hart := by
  intro h
  obtain ⟨⟨hgprs, _⟩, _⟩ := h ⟨5, 1, 0, .S⟩ rfl rfl
  have hx8 := congrFun hgprs 8
  revert hx8
  decide

end Pyremu
