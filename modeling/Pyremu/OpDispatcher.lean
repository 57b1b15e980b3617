import Pyremu.Alu
import Pyremu.Csr
import Pyremu.Decode
import Pyremu.Fpu

/-!
# Instructions without memory access

Handlers of `op_dispatcher.rs`. Each returns the state and the amount by which
the program counter is still to advance: 4, or 0 when it was already rewritten.
-/

namespace Pyremu

/-- Write the result, or raise an illegal-instruction trap when there is none. -/
def finishAlu (s : HartState) (rd : BitVec 5) (instr : BitVec 32) (r : Option Word) :
    HartState × Word :=
  match r with
  | none => (deliverIllegalInstruction s (instr.setWidth 64), 0)
  | some v => (writeGpr s rd v, 4)

def handleAlu (s : HartState) (f : DecodedFields) (instr : BitVec 32) : HartState × Word :=
  finishAlu s f.rd instr (execAluOp f.func3 f.func7 (readGpr s f.rs1) (readGpr s f.rs2))

def handleOpImm (s : HartState) (f : DecodedFields) (instr : BitVec 32) : HartState × Word :=
  finishAlu s f.rd instr (execOpImm f.func3 f.func7 (readGpr s f.rs1) f.imm12Se)

def handleOp32 (s : HartState) (f : DecodedFields) (instr : BitVec 32) : HartState × Word :=
  finishAlu s f.rd instr (execOp32 f.func3 f.func7 (readGpr s f.rs1) (readGpr s f.rs2))

def handleOpImm32 (s : HartState) (f : DecodedFields) (instr : BitVec 32) : HartState × Word :=
  finishAlu s f.rd instr (execOpImm32 f.func3 f.func7 (readGpr s f.rs1) f.imm12Se)

def setFsDirty (s : HartState) : HartState :=
  { s with mstatus := s.mstatus ||| (mstatusFs ||| mstatusSd) }

def writeFpr (s : HartState) (rd : BitVec 5) (v : Word) : HartState :=
  { s with fprs := Function.update s.fprs rd v }

def curFrm (s : HartState) : BitVec 3 := s.fcsr.extractLsb' 5 3

/-- Write a floating-point result, its flags, and mark the unit dirty. -/
def finishFp (s : HartState) (rd : BitVec 5) (instr : BitVec 32) (out : Option FpOut) :
    HartState × Word :=
  match out with
  | none => (deliverIllegalInstruction s (instr.setWidth 64), 0)
  | some o =>
    let s := if o.toGpr then writeGpr s rd o.value else writeFpr s rd o.value
    (setFsDirty { s with fcsr := s.fcsr ||| o.fflags.setWidth 32 }, 4)

def handleFpOp (sf : SoftFloat) (s : HartState) (f : DecodedFields) (instr : BitVec 32) :
    HartState × Word :=
  if fpOff s then (deliverIllegalInstruction s (instr.setWidth 64), 0)
  else
    let op5 := f.func7.extractLsb' 2 5
    let rs1Bits := if op5 = 0x1a ∨ op5 = 0x1e then readGpr s f.rs1 else s.fprs f.rs1
    finishFp s f.rd instr
      (fpExecOp sf f.func7 f.func3 f.rs2 rs1Bits (s.fprs f.rs2) (curFrm s))

/-- The result of a fused operation always goes to a floating-point register. -/
def handleFpFma (sf : SoftFloat) (s : HartState) (f : DecodedFields) (instr : BitVec 32) :
    HartState × Word :=
  if fpOff s then (deliverIllegalInstruction s (instr.setWidth 64), 0)
  else
    finishFp s f.rd instr
      (fpExecFma sf f.opcode f.func3 f.fmt (s.fprs f.rs1) (s.fprs f.rs2) (s.fprs f.rs3)
        (curFrm s))

def luiImm (f : DecodedFields) : Word := (f.imm20Raw ++ 0#12 : BitVec 32).signExtend 64

def handleLui (s : HartState) (f : DecodedFields) : HartState × Word :=
  (writeGpr s f.rd (luiImm f), 4)

def handleAuipc (s : HartState) (f : DecodedFields) : HartState × Word :=
  (writeGpr s f.rd (s.pc + luiImm f), 4)

def handleJal (s : HartState) (f : DecodedFields) : HartState × Word :=
  ({ writeGpr s f.rd (s.pc + 4) with pc := s.pc + f.immJ }, 0)

def handleJalr (s : HartState) (f : DecodedFields) : HartState × Word :=
  let target := (readGpr s f.rs1 + f.imm12Se) &&& ~~~1
  ({ writeGpr s f.rd (s.pc + 4) with pc := target }, 0)

/-- Condition of a branch, `none` for the two reserved encodings. -/
def branchTaken (func3 : BitVec 3) (v1 v2 : Word) : Option Bool :=
  match func3 with
  | 0b000 => some (v1 == v2)
  | 0b001 => some (v1 != v2)
  | 0b100 => some (v1.slt v2)
  | 0b101 => some (!v1.slt v2)
  | 0b110 => some (v1.ult v2)
  | 0b111 => some (!v1.ult v2)
  | _ => none

def handleBr (s : HartState) (f : DecodedFields) (instr : BitVec 32) : HartState × Word :=
  match branchTaken f.func3 (readGpr s f.rs1) (readGpr s f.rs2) with
  | none => (deliverIllegalInstruction s (instr.setWidth 64), 0)
  | some true => ({ s with pc := s.pc + f.immB }, 0)
  | some false => (s, 4)

def handleFence (s : HartState) (f : DecodedFields) (instr : BitVec 32) : HartState × Word :=
  if 1 < f.func3 then (deliverIllegalInstruction s (instr.setWidth 64), 0) else (s, 4)

end Pyremu
