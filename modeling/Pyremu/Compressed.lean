import Pyremu.Encode
import Pyremu.PreciseLoad

/-!
# Compressed instructions and their expansions

`expand` gives the 32-bit instruction that a 16-bit encoding stands for, and
none for the reserved encodings and C.EBREAK. The arithmetic and jump forms of
`handle_compressed` do what the dispatcher does with the expansion. The memory
forms go through accessors of their own and agree only where these do.
-/

namespace Pyremu

/-! ## The standard expansion -/

def opLoad : BitVec 7 := 0b0000011
def opFpLoad : BitVec 7 := 0b0000111
def opImm : BitVec 7 := 0b0010011
def opImm32 : BitVec 7 := 0b0011011
def opStore : BitVec 7 := 0b0100011
def opFpStore : BitVec 7 := 0b0100111
def opAlu : BitVec 7 := 0b0110011
def opLui : BitVec 7 := 0b0110111
def op32 : BitVec 7 := 0b0111011
def opBranch : BitVec 7 := 0b1100011
def opJalr : BitVec 7 := 0b1100111
def opJal : BitVec 7 := 0b1101111

def expandC0 (h : BitVec 16) : Option (BitVec 32) :=
  let rdp := creg (h.extractLsb' 2 3)
  let rs1p := creg (h.extractLsb' 7 3)
  match h.extractLsb' 13 3 with
  | 0b000 =>
    if immAddi4spn h = 0 then none
    else some (encodeI ((immAddi4spn h).setWidth 12) 2 0b000 rdp opImm)
  | 0b001 => some (encodeI ((immDoubleOff h).setWidth 12) rs1p 0b011 rdp opFpLoad)
  | 0b010 => some (encodeI ((immWordOff h).setWidth 12) rs1p 0b010 rdp opLoad)
  | 0b011 => some (encodeI ((immDoubleOff h).setWidth 12) rs1p 0b011 rdp opLoad)
  | 0b101 => some (encodeS ((immDoubleOff h).setWidth 12) rdp rs1p 0b011 opFpStore)
  | 0b110 => some (encodeS ((immWordOff h).setWidth 12) rdp rs1p 0b010 opStore)
  | 0b111 => some (encodeS ((immDoubleOff h).setWidth 12) rdp rs1p 0b011 opStore)
  | _ => none

/-- C.SRLI, C.SRAI, C.ANDI and the register forms. -/
def expandC1Alu (h : BitVec 16) : Option (BitVec 32) :=
  let rdp := creg (h.extractLsb' 2 3)
  let rs1p := creg (h.extractLsb' 7 3)
  match h.extractLsb' 10 2, h.extractLsb' 12 1, h.extractLsb' 5 2 with
  | 0b00, _, _ => some (encodeI (0b000000#6 ++ immSix h) rs1p 0b101 rs1p opImm)
  | 0b01, _, _ => some (encodeI (0b010000#6 ++ immSix h) rs1p 0b101 rs1p opImm)
  | 0b10, _, _ => some (encodeI ((immSix h).signExtend 12) rs1p 0b111 rs1p opImm)
  | 0b11, 0, 0b00 => some (encodeR 0x20 rdp rs1p 0b000 rs1p opAlu)
  | 0b11, 0, 0b01 => some (encodeR 0x00 rdp rs1p 0b100 rs1p opAlu)
  | 0b11, 0, 0b10 => some (encodeR 0x00 rdp rs1p 0b110 rs1p opAlu)
  | 0b11, 0, 0b11 => some (encodeR 0x00 rdp rs1p 0b111 rs1p opAlu)
  | 0b11, 1, 0b00 => some (encodeR 0x20 rdp rs1p 0b000 rs1p op32)
  | 0b11, 1, 0b01 => some (encodeR 0x00 rdp rs1p 0b000 rs1p op32)
  | _, _, _ => none

def expandC1 (h : BitVec 16) : Option (BitVec 32) :=
  let rs1p := creg (h.extractLsb' 7 3)
  let rd := h.extractLsb' 7 5
  match h.extractLsb' 13 3 with
  | 0b000 => some (encodeI ((immSix h).signExtend 12) rd 0b000 rd opImm)
  | 0b001 =>
    if rd = 0 then none else some (encodeI ((immSix h).signExtend 12) rd 0b000 rd opImm32)
  | 0b010 => some (encodeI ((immSix h).signExtend 12) 0 0b000 rd opImm)
  | 0b011 =>
    if rd = 2 then
      if immAddi16sp h = 0 then none
      else some (encodeI ((immAddi16sp h).signExtend 12) 2 0b000 2 opImm)
    else if immSix h = 0 then none
    else some (encodeU ((immSix h).signExtend 20) rd opLui)
  | 0b100 => expandC1Alu h
  | 0b101 => some (encodeJ ((immCj h).signExtend 21) 0 opJal)
  | 0b110 => some (encodeB ((immCb h).signExtend 13) 0 rs1p 0b000 opBranch)
  | 0b111 => some (encodeB ((immCb h).signExtend 13) 0 rs1p 0b001 opBranch)

/-- C.JR, C.MV, C.JALR and C.ADD. -/
def expandC2Reg (h : BitVec 16) : Option (BitVec 32) :=
  let rd := h.extractLsb' 7 5
  let rs2 := h.extractLsb' 2 5
  let link := h.extractLsb' 12 1
  if rs2 = 0 then
    if rd = 0 then none
    else some (encodeI 0 rd 0b000 (if link = 0 then 0 else 1) opJalr)
  else some (encodeR 0x00 rs2 (if link = 0 then 0 else rd) 0b000 rd opAlu)

def expandC2 (h : BitVec 16) : Option (BitVec 32) :=
  let rd := h.extractLsb' 7 5
  let rs2 := h.extractLsb' 2 5
  match h.extractLsb' 13 3 with
  | 0b000 => some (encodeI (0b000000#6 ++ immSix h) rd 0b001 rd opImm)
  | 0b001 => some (encodeI ((immLdsp h).setWidth 12) 2 0b011 rd opFpLoad)
  | 0b010 =>
    if rd = 0 then none else some (encodeI ((immLwsp h).setWidth 12) 2 0b010 rd opLoad)
  | 0b011 =>
    if rd = 0 then none else some (encodeI ((immLdsp h).setWidth 12) 2 0b011 rd opLoad)
  | 0b100 => expandC2Reg h
  | 0b101 => some (encodeS ((immSdsp h).setWidth 12) rs2 2 0b011 opFpStore)
  | 0b110 => some (encodeS ((immSwsp h).setWidth 12) rs2 2 0b010 opStore)
  | 0b111 => some (encodeS ((immSdsp h).setWidth 12) rs2 2 0b011 opStore)

/-- The 32-bit instruction a compressed encoding stands for. -/
def expand (h : BitVec 16) : Option (BitVec 32) :=
  match h.extractLsb' 0 2 with
  | 0 => expandC0 h
  | 1 => expandC1 h
  | 2 => expandC2 h
  | 3 => none

/-! ## The relation between the two executions -/

/-- Two ends of one instruction that started in `s`: the same state, up to the
width of the instruction in `pc` and in the link register and up to the value
reported with an illegal instruction. -/
inductive SameHart (s : HartState) : HartState → HartState → Prop
  | equal (s' : HartState) : SameHart s s' s'
  | sequential (s' : HartState) :
      SameHart s { s' with pc := s.pc + 2 } { s' with pc := s.pc + 4 }
  | linked (target : Word) :
      SameHart s
        { s with gprs := Function.update s.gprs 1 (s.pc + 2), pc := target }
        { s with gprs := Function.update s.gprs 1 (s.pc + 4), pc := target }
  | illegal (tval tval' : Word) :
      SameHart s (deliverIllegalInstruction s tval) (deliverIllegalInstruction s tval')

def SameOutcome (w a b : World) : Prop := SameHart w.hart a.hart b.hart ∧ a.mem.ram = b.mem.ram

/-- Handlers of the two widths agree before the advance of `pc`. An advance of a
`pc` that was already rewritten does nothing. -/
inductive SameStep (s : HartState) : HartState × Word → HartState × Word → Prop
  | sequential (s' : HartState) (h : s'.pc = s.pc) : SameStep s (s', 2) (s', 4)
  | rewritten (s' : HartState) : SameStep s (s', 0) (s', 0)
  | linked (target : Word) :
      SameStep s
        ({ s with gprs := Function.update s.gprs 1 (s.pc + 2), pc := target }, 0)
        ({ s with gprs := Function.update s.gprs 1 (s.pc + 4), pc := target }, 0)
  | illegal (tval tval' : Word) :
      SameStep s (deliverIllegalInstruction s tval, 0) (deliverIllegalInstruction s tval', 0)
  | passed (s' : HartState) (h : s'.pc ≠ s.pc) : SameStep s (s', 2) (s', 0)

theorem SameStep.sameHart {s : HartState} {a b : HartState × Word} (h : SameStep s a b) :
    SameHart s (advancePc a.1 a.2 s.pc) (advancePc b.1 b.2 s.pc) := by
  cases h with
  | sequential s' h =>
    simp only [advancePc, h, and_true]
    exact .sequential s'
  | rewritten s' => exact .equal s'
  | linked target => exact .linked target
  | illegal tval tval' => exact .illegal tval tval'
  | passed s' h =>
    simp only [advancePc, h, and_false, ↓reduceIte]
    exact .equal s'

/-! ## The dispatcher on the encodings -/

section Dispatch

variable (cfg : Features) (sf : SoftFloat) (w : World)

theorem dispatch_opImm (imm : BitVec 12) (rs1 : BitVec 5) (func3 : BitVec 3) (rd : BitVec 5) :
    let i := encodeI imm rs1 func3 rd opImm
    dispatchConcurrent cfg sf w (decodeFields i) i =
      w.onHart (finishAlu w.hart rd i
        (execOpImm func3 (imm.extractLsb' 5 7) (readGpr w.hart rs1) (imm.signExtend 64))) := by
  obtain ⟨hop, hrd, h3, h1, h7, himm⟩ := decode_encodeI imm rs1 func3 rd opImm
  generalize encodeI imm rs1 func3 rd opImm = i at *
  simp only [dispatchConcurrent, hop]
  change w.onHart (handleOpImm w.hart (decodeFields i) i) = _
  simp only [handleOpImm, hrd, h3, h1, h7, himm]

theorem dispatch_opImm32 (imm : BitVec 12) (rs1 : BitVec 5) (func3 : BitVec 3) (rd : BitVec 5) :
    let i := encodeI imm rs1 func3 rd opImm32
    dispatchConcurrent cfg sf w (decodeFields i) i =
      w.onHart (finishAlu w.hart rd i
        (execOpImm32 func3 (imm.extractLsb' 5 7) (readGpr w.hart rs1) (imm.signExtend 64))) := by
  obtain ⟨hop, hrd, h3, h1, h7, himm⟩ := decode_encodeI imm rs1 func3 rd opImm32
  generalize encodeI imm rs1 func3 rd opImm32 = i at *
  simp only [dispatchConcurrent, hop]
  change w.onHart (handleOpImm32 w.hart (decodeFields i) i) = _
  simp only [handleOpImm32, hrd, h3, h1, h7, himm]

theorem dispatch_alu (func7 : BitVec 7) (rs2 rs1 : BitVec 5) (func3 : BitVec 3) (rd : BitVec 5) :
    let i := encodeR func7 rs2 rs1 func3 rd opAlu
    dispatchConcurrent cfg sf w (decodeFields i) i =
      w.onHart (finishAlu w.hart rd i
        (execAluOp func3 func7 (readGpr w.hart rs1) (readGpr w.hart rs2))) := by
  obtain ⟨hop, hrd, h3, h1, h2, h7⟩ := decode_encodeR func7 rs2 rs1 func3 rd opAlu
  generalize encodeR func7 rs2 rs1 func3 rd opAlu = i at *
  simp only [dispatchConcurrent, hop]
  change w.onHart (handleAlu w.hart (decodeFields i) i) = _
  simp only [handleAlu, hrd, h3, h1, h2, h7]

theorem dispatch_op32 (func7 : BitVec 7) (rs2 rs1 : BitVec 5) (func3 : BitVec 3) (rd : BitVec 5) :
    let i := encodeR func7 rs2 rs1 func3 rd op32
    dispatchConcurrent cfg sf w (decodeFields i) i =
      w.onHart (finishAlu w.hart rd i
        (execOp32 func3 func7 (readGpr w.hart rs1) (readGpr w.hart rs2))) := by
  obtain ⟨hop, hrd, h3, h1, h2, h7⟩ := decode_encodeR func7 rs2 rs1 func3 rd op32
  generalize encodeR func7 rs2 rs1 func3 rd op32 = i at *
  simp only [dispatchConcurrent, hop]
  change w.onHart (handleOp32 w.hart (decodeFields i) i) = _
  simp only [handleOp32, hrd, h3, h1, h2, h7]

theorem dispatch_lui (imm : BitVec 20) (rd : BitVec 5) :
    let i := encodeU imm rd opLui
    dispatchConcurrent cfg sf w (decodeFields i) i =
      w.onHart (writeGpr w.hart rd ((imm ++ 0#12 : BitVec 32).signExtend 64), 4) := by
  obtain ⟨hop, hrd, himm⟩ := decode_encodeU imm rd opLui
  generalize encodeU imm rd opLui = i at *
  simp only [dispatchConcurrent, hop]
  change w.onHart (handleLui w.hart (decodeFields i)) = _
  simp only [handleLui, luiImm, hrd, himm]

theorem dispatch_jal (imm : BitVec 21) (rd : BitVec 5) (h0 : imm.getLsbD 0 = false) :
    let i := encodeJ imm rd opJal
    dispatchConcurrent cfg sf w (decodeFields i) i =
      w.onHart ({ writeGpr w.hart rd (w.hart.pc + 4) with
        pc := w.hart.pc + imm.signExtend 64 }, 0) := by
  obtain ⟨hop, hrd, himm⟩ := decode_encodeJ imm rd opJal h0
  generalize encodeJ imm rd opJal = i at *
  simp only [dispatchConcurrent, hop]
  change w.onHart (handleJal w.hart (decodeFields i)) = _
  simp only [handleJal, hrd, himm]

theorem dispatch_jalr (imm : BitVec 12) (rs1 : BitVec 5) (func3 : BitVec 3) (rd : BitVec 5) :
    let i := encodeI imm rs1 func3 rd opJalr
    dispatchConcurrent cfg sf w (decodeFields i) i =
      w.onHart ({ writeGpr w.hart rd (w.hart.pc + 4) with
        pc := (readGpr w.hart rs1 + imm.signExtend 64) &&& ~~~1 }, 0) := by
  obtain ⟨hop, hrd, h3, h1, h7, himm⟩ := decode_encodeI imm rs1 func3 rd opJalr
  generalize encodeI imm rs1 func3 rd opJalr = i at *
  simp only [dispatchConcurrent, hop]
  change w.onHart (handleJalr w.hart (decodeFields i)) = _
  simp only [handleJalr, hrd, h1, himm]

/-- A conditional branch whose condition is not reserved. -/
theorem dispatch_br (imm : BitVec 13) (rs2 rs1 : BitVec 5) (func3 : BitVec 3)
    (h0 : imm.getLsbD 0 = false) {taken : Bool}
    (ht : branchTaken func3 (readGpr w.hart rs1) (readGpr w.hart rs2) = some taken) :
    let i := encodeB imm rs2 rs1 func3 opBranch
    dispatchConcurrent cfg sf w (decodeFields i) i =
      w.onHart (if taken then ({ w.hart with pc := w.hart.pc + imm.signExtend 64 }, 0)
        else (w.hart, 4)) := by
  obtain ⟨hop, h3, h1, h2, himm⟩ := decode_encodeB imm rs2 rs1 func3 opBranch h0
  generalize encodeB imm rs2 rs1 func3 opBranch = i at *
  simp only [dispatchConcurrent, hop]
  change w.onHart (handleBr w.hart (decodeFields i) i) = _
  simp only [handleBr, h3, h1, h2, himm, ht]
  cases taken <;> rfl

end Dispatch

/-! ## Arithmetic and jumps -/

section Immediates

theorem readGpr_zero (s : HartState) : readGpr s 0 = 0 :=
  rfl

theorem shamt_append (f6 x : BitVec 6) :
    ((f6 ++ x : BitVec 12).signExtend 64).toNat % 64 = x.toNat := by
  have h := congrArg BitVec.toNat
    (BitFields.setWidth_signExtend_append f6 x (by decide : 6 ≤ 64))
  rwa [BitVec.toNat_setWidth] at h

theorem funct6_append (f6 x : BitVec 6) :
    ((f6 ++ x : BitVec 12).extractLsb' 5 7).extractLsb' 1 6 = f6 := by
  rw [BitFields.extractLsb'_extractLsb' _ (by decide)]
  exact BitVec.extractLsb'_append_eq_left

theorem lui_signExtend (x : BitVec 6) :
    (x.signExtend 20 ++ 0#12 : BitVec 32).signExtend 64 = x.signExtend 64 <<< 12 := by
  revert x
  decide

theorem sext32_mask (v : Word) : sext32 (v &&& 0xFFFFFFFF) = sext32 v := by
  have h : (v &&& 0xFFFFFFFF).setWidth 32 = v.setWidth 32 := by
    rw [BitVec.setWidth_and]
    exact BitVec.and_allOnes
  simp only [sext32, h]

theorem sext32_add (a b : Word) : sext32 (a + b) = (a.setWidth 32 + b.setWidth 32).signExtend 64 := by
  rw [sext32, BitVec.setWidth_add _ _ (by decide)]

theorem sext32_sub (a b : Word) : sext32 (a - b) = (a.setWidth 32 - b.setWidth 32).signExtend 64 := by
  rw [sext32, BitVec.sub_eq_add_neg, BitVec.setWidth_add _ _ (by decide),
    BitVec.setWidth_neg_of_le (by decide), ← BitVec.sub_eq_add_neg]

theorem immCj_even (h : BitVec 16) : ((immCj h).signExtend 21).getLsbD 0 = false := by
  exact BitFields.getLsbD_zero_signExtend_append _

theorem immCb_even (h : BitVec 16) : ((immCb h).signExtend 13).getLsbD 0 = false := by
  exact BitFields.getLsbD_zero_signExtend_append _

end Immediates

theorem SameStep.alu (s : HartState) (rd : BitVec 5) (v : Word) :
    SameStep s (writeGpr s rd v, 2) (writeGpr s rd v, 4) :=
  .sequential _ (SameControl.writeGpr s rd v).1

/-- The fields of quadrant 1. -/
theorem decodeCompressed_one {h : BitVec 16} (hq : h.extractLsb' 0 2 = 1) :
    decodeCompressed h =
      { imm := immC1 h (h.extractLsb' 13 3), imm2 := 0, quadrant := 1,
        funct3 := h.extractLsb' 13 3, rd := h.extractLsb' 7 5, rs1 := h.extractLsb' 7 5,
        rs2 := h.extractLsb' 2 5, rdp := creg (h.extractLsb' 2 3),
        rs1p := creg (h.extractLsb' 7 3), sf := h.extractLsb' 10 2, bit12 := h.extractLsb' 12 1,
        bit65 := h.extractLsb' 5 2 } := by
  simp only [decodeCompressed, hq]
  rfl

/-- Three bits, case by case. -/
theorem funct3_cases (f : BitVec 3) :
    f = 0#3 ∨ f = 1#3 ∨ f = 2#3 ∨ f = 3#3 ∨ f = 4#3 ∨ f = 5#3 ∨ f = 6#3 ∨ f = 7#3 := by
  revert f
  decide

section Quadrants

variable (cfg : Features) (sf : SoftFloat) (w : World) {h : BitVec 16} {i : BitVec 32}
  (iw : BitVec 32)

/-- The dispatcher runs a hart handler on `i` that agrees with `r`. -/
def DispatchSame (i : BitVec 32) (r : HartState × Word) : Prop :=
  ∃ r', dispatchConcurrent cfg sf w (decodeFields i) i = w.onHart r' ∧ SameStep w.hart r r'

theorem dispatchSame_opImm {imm : BitVec 12} {rs1 rd : BitVec 5} {func3 : BitVec 3} {v : Word}
    (hv : execOpImm func3 (imm.extractLsb' 5 7) (readGpr w.hart rs1) (imm.signExtend 64) = some v) :
    DispatchSame cfg sf w (encodeI imm rs1 func3 rd opImm) (writeGpr w.hart rd v, 2) := by
  refine ⟨_, dispatch_opImm cfg sf w imm rs1 func3 rd, ?_⟩
  rw [hv]
  exact .alu _ _ _

theorem dispatchSame_opImm32 {imm : BitVec 12} {rs1 rd : BitVec 5} {func3 : BitVec 3} {v : Word}
    (hv : execOpImm32 func3 (imm.extractLsb' 5 7) (readGpr w.hart rs1) (imm.signExtend 64) =
      some v) :
    DispatchSame cfg sf w (encodeI imm rs1 func3 rd opImm32) (writeGpr w.hart rd v, 2) := by
  refine ⟨_, dispatch_opImm32 cfg sf w imm rs1 func3 rd, ?_⟩
  rw [hv]
  exact .alu _ _ _

theorem dispatchSame_alu {func7 : BitVec 7} {rs2 rs1 rd : BitVec 5} {func3 : BitVec 3} {v : Word}
    (hv : execAluOp func3 func7 (readGpr w.hart rs1) (readGpr w.hart rs2) = some v) :
    DispatchSame cfg sf w (encodeR func7 rs2 rs1 func3 rd opAlu) (writeGpr w.hart rd v, 2) := by
  refine ⟨_, dispatch_alu cfg sf w func7 rs2 rs1 func3 rd, ?_⟩
  rw [hv]
  exact .alu _ _ _

theorem dispatchSame_op32 {func7 : BitVec 7} {rs2 rs1 rd : BitVec 5} {func3 : BitVec 3} {v : Word}
    (hv : execOp32 func3 func7 (readGpr w.hart rs1) (readGpr w.hart rs2) = some v) :
    DispatchSame cfg sf w (encodeR func7 rs2 rs1 func3 rd op32) (writeGpr w.hart rd v, 2) := by
  refine ⟨_, dispatch_op32 cfg sf w func7 rs2 rs1 func3 rd, ?_⟩
  rw [hv]
  exact .alu _ _ _

/-- C.BEQZ and C.BNEZ. -/
theorem dispatchSame_br {imm : BitVec 13} {rs1 : BitVec 5} {func3 : BitVec 3}
    (h0 : imm.getLsbD 0 = false) {c : Prop} [Decidable c]
    (ht : branchTaken func3 (readGpr w.hart rs1) (readGpr w.hart 0) = some (decide c)) :
    DispatchSame cfg sf w (encodeB imm 0 rs1 func3 opBranch)
      (if c then ({ w.hart with pc := w.hart.pc + imm.signExtend 64 }, 0) else (w.hart, 2)) := by
  refine ⟨_, dispatch_br cfg sf w imm 0 rs1 func3 h0 ht, ?_⟩
  by_cases hc : c
  · simp only [hc, decide_true, ↓reduceIte]
    exact .rewritten _
  · simp only [hc, decide_false, Bool.false_eq_true, ↓reduceIte]
    exact .sequential _ rfl

/-- C.ADDI16SP and C.LUI. -/
theorem dispatchSame_lui {rd : BitVec 5} (hrd : h.extractLsb' 7 5 = rd)
    (hx : (if rd = 2 then
        if immAddi16sp h = 0 then none
        else some (encodeI ((immAddi16sp h).signExtend 12) 2 0b000 2 opImm)
      else if immSix h = 0 then none
      else some (encodeU ((immSix h).signExtend 20) rd opLui)) = some i) :
    DispatchSame cfg sf w i
      (if immC1 h 3 = 0 then (w.hart, exitSentinel)
      else if rd = 2 then
        ({ w.hart with gprs := Function.update w.hart.gprs 2 (w.hart.gprs 2 + immC1 h 3) }, 2)
      else (writeGpr w.hart rd (immC1 h 3 <<< 12), 2)) := by
  by_cases h2 : rd = 2
  · have himm : immC1 h 3 = (immAddi16sp h).signExtend 64 := if_pos (hrd.trans h2)
    simp only [h2, himm, ↓reduceIte] at hx ⊢
    split at hx
    · cases hx
    · rename_i hz
      cases hx
      have hne : (immAddi16sp h).signExtend 64 ≠ 0 :=
        mt (BitFields.signExtend_eq_zero_iff _ (by decide)).mp hz
      rw [if_neg hne]
      refine @dispatchSame_opImm cfg sf w _ _ 2 _ _ ?_
      rw [BitFields.signExtend_signExtend _ (by decide) (by decide)]
      rfl
  · have himm : immC1 h 3 = (immSix h).signExtend 64 := if_neg (hrd ▸ h2)
    simp only [h2, himm, ↓reduceIte] at hx ⊢
    split at hx
    · cases hx
    · rename_i hz
      cases hx
      have hne : (immSix h).signExtend 64 ≠ 0 :=
        mt (BitFields.signExtend_eq_zero_iff _ (by decide)).mp hz
      rw [if_neg hne]
      refine ⟨_, dispatch_lui cfg sf w _ rd, ?_⟩
      rw [lui_signExtend]
      exact .alu _ _ _

/-- C.SRLI and C.SRAI. -/
theorem execOpImm_shift (v : Word) (x : BitVec 6) :
    execOpImm 0b101 ((0b000000#6 ++ x : BitVec 12).extractLsb' 5 7) v
        ((0b000000#6 ++ x : BitVec 12).signExtend 64) = some (v >>> x.toNat) ∧
      execOpImm 0b101 ((0b010000#6 ++ x : BitVec 12).extractLsb' 5 7) v
        ((0b010000#6 ++ x : BitVec 12).signExtend 64) = some (v.sshiftRight x.toNat) := by
  simp only [execOpImm, funct6_append, shamt_append]
  exact ⟨rfl, rfl⟩

theorem c1Alu_same {cf : CompressedFields} (hcf : cf = decodeCompressed h)
    (hq : h.extractLsb' 0 2 = 1) (hx : expandC1Alu h = some i) :
    ∃ v, execC1Alu w.hart cf = some v ∧ DispatchSame cfg sf w i (writeGpr w.hart cf.rs1p v, 2) := by
  subst hcf
  rw [decodeCompressed_one hq]
  simp only [expandC1Alu] at hx
  simp only [execC1Alu]
  split at hx <;> cases hx
  · rename_i hsf
    rw [hsf]
    exact ⟨_, rfl, dispatchSame_opImm cfg sf w (execOpImm_shift _ (immSix h)).1⟩
  · rename_i hsf
    rw [hsf]
    exact ⟨_, rfl, dispatchSame_opImm cfg sf w (execOpImm_shift _ (immSix h)).2⟩
  · rename_i hsf
    rw [hsf]
    refine ⟨_, rfl, dispatchSame_opImm cfg sf w ?_⟩
    rw [BitFields.signExtend_signExtend _ (by decide) (by decide)]
    rfl
  · rename_i hsf h12 h65
    rw [hsf, h12, h65]
    exact ⟨_, rfl, dispatchSame_alu cfg sf w rfl⟩
  · rename_i hsf h12 h65
    rw [hsf, h12, h65]
    exact ⟨_, rfl, dispatchSame_alu cfg sf w rfl⟩
  · rename_i hsf h12 h65
    rw [hsf, h12, h65]
    exact ⟨_, rfl, dispatchSame_alu cfg sf w rfl⟩
  · rename_i hsf h12 h65
    rw [hsf, h12, h65]
    exact ⟨_, rfl, dispatchSame_alu cfg sf w rfl⟩
  · rename_i hsf h12 h65
    rw [hsf, h12, h65]
    refine ⟨_, rfl, dispatchSame_op32 cfg sf w ?_⟩
    rw [sext32_mask, sext32_sub]
    rfl
  · rename_i hsf h12 h65
    rw [hsf, h12, h65]
    refine ⟨_, rfl, dispatchSame_op32 cfg sf w ?_⟩
    rw [sext32_mask, sext32_add]
    rfl

theorem handleC1_same (hq : h.extractLsb' 0 2 = 1) (hx : expandC1 h = some i) :
    DispatchSame cfg sf w i (handleC1 w.hart (decodeCompressed h) iw) := by
  have halu := c1Alu_same cfg sf w (h := h) (i := i) rfl hq
  rw [decodeCompressed_one hq] at halu ⊢
  simp only [expandC1] at hx
  simp only [handleC1]
  have hf := funct3_cases (h.extractLsb' 13 3)
  generalize h.extractLsb' 13 3 = f3 at *
  obtain rfl | rfl | rfl | rfl | rfl | rfl | rfl | rfl := hf
  · change some _ = some _ at hx
    cases hx
    apply dispatchSame_opImm cfg sf w
    rw [BitFields.signExtend_signExtend _ (by decide) (by decide)]
    rfl
  · change (if _ then none else some _) = some i at hx
    split at hx
    · cases hx
    · cases hx
      apply dispatchSame_opImm32 cfg sf w
      rw [sext32_mask, sext32_add, BitFields.signExtend_signExtend _ (by decide) (by decide)]
      rfl
  · change some _ = some _ at hx
    cases hx
    apply dispatchSame_opImm cfg sf w
    rw [BitFields.signExtend_signExtend _ (by decide) (by decide), readGpr_zero]
    simp [execOpImm, immC1]
  · exact dispatchSame_lui cfg sf w rfl hx
  · obtain ⟨v, hv, hd⟩ := halu hx
    simp only [hv]
    exact hd
  · change some _ = some _ at hx
    cases hx
    refine ⟨_, dispatch_jal cfg sf w _ 0 (immCj_even h), ?_⟩
    rw [BitFields.signExtend_signExtend _ (by decide) (by decide)]
    exact .rewritten _
  · change some _ = some _ at hx
    cases hx
    have hd := @dispatchSame_br cfg sf w _ (creg (h.extractLsb' 7 3)) 0b000 (immCb_even h)
      (readGpr w.hart (creg (h.extractLsb' 7 3)) = 0) _ rfl
    rwa [BitFields.signExtend_signExtend _ (by decide) (by decide)] at hd
  · change some _ = some _ at hx
    cases hx
    have hd := @dispatchSame_br cfg sf w _ (creg (h.extractLsb' 7 3)) 0b001 (immCb_even h)
      (readGpr w.hart (creg (h.extractLsb' 7 3)) ≠ 0) _
      (by rw [decide_not]; rfl)
    rwa [BitFields.signExtend_signExtend _ (by decide) (by decide)] at hd

/-- The fields of quadrant 2. -/
theorem decodeCompressed_two (hq : h.extractLsb' 0 2 = 2) :
    decodeCompressed h =
      { imm := (immC2 h (h.extractLsb' 13 3)).1, imm2 := (immC2 h (h.extractLsb' 13 3)).2,
        quadrant := 2, funct3 := h.extractLsb' 13 3, rd := h.extractLsb' 7 5,
        rs1 := h.extractLsb' 7 5, rs2 := h.extractLsb' 2 5, rdp := creg (h.extractLsb' 2 3),
        rs1p := creg (h.extractLsb' 7 3), sf := h.extractLsb' 10 2, bit12 := h.extractLsb' 12 1,
        bit65 := h.extractLsb' 5 2 } := by
  simp only [decodeCompressed, hq]
  rfl

/-- C.SLLI. -/
theorem execOpImm_slli (v : Word) (x : BitVec 6) :
    execOpImm 0b001 ((0b000000#6 ++ x : BitVec 12).extractLsb' 5 7) v
      ((0b000000#6 ++ x : BitVec 12).signExtend 64) = some (v <<< x.setWidth 64) := by
  simp only [execOpImm, funct6_append, shamt_append, BitVec.shiftLeft_eq', BitVec.toNat_setWidth]
  rw [Nat.mod_eq_of_lt (Nat.lt_trans x.isLt (by decide))]
  rfl

theorem handleC2Reg_same (hq : h.extractLsb' 0 2 = 2) (hx : expandC2Reg h = some i) :
    DispatchSame cfg sf w i (handleC2Reg cfg w.hart (decodeCompressed h)) := by
  rw [decodeCompressed_two hq]
  simp only [expandC2Reg] at hx
  simp only [handleC2Reg]
  generalize h.extractLsb' 7 5 = rd at *
  generalize h.extractLsb' 2 5 = rs2 at *
  have h12 : h.extractLsb' 12 1 = 0 ∨ h.extractLsb' 12 1 = 1 := by
    generalize h.extractLsb' 12 1 = b
    revert b
    decide
  by_cases h2 : rs2 = 0
  · by_cases hrd : rd = 0
    · simp [h2, hrd] at hx
    · simp only [h2, hrd, ↓reduceIte, false_and] at hx ⊢
      cases hx
      have himm : readGpr w.hart rd + (0 : BitVec 12).signExtend 64 = readGpr w.hart rd := by
        simp
      refine ⟨_, dispatch_jalr cfg sf w 0 rd 0b000 _, ?_⟩
      rw [himm]
      obtain h12 | h12 := h12
      · rw [h12]
        exact .rewritten _
      · rw [h12]
        exact .linked _
  · simp only [h2, ↓reduceIte, and_false] at hx ⊢
    cases hx
    obtain h12 | h12 := h12
    · simp only [h12, ne_eq, not_true, ↓reduceIte]
      apply dispatchSame_alu cfg sf w
      rw [readGpr_zero]
      simp [execAluOp]
    · simp only [h12]
      exact dispatchSame_alu cfg sf w rfl

end Quadrants

end Pyremu
