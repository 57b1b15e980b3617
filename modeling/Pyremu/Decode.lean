import Pyremu.State

/-!
# Instruction fields

Field extraction for 32-bit and compressed instructions. Immediates are written
as the concatenation of their bit groups, most significant group first.
-/

namespace Pyremu

structure DecodedFields where
  imm12Se : Word
  immS : Word
  immB : Word
  immJ : Word
  imm20Raw : BitVec 20
  func12 : BitVec 12
  opcode : BitVec 7
  rd : BitVec 5
  func3 : BitVec 3
  rs1 : BitVec 5
  rs2 : BitVec 5
  func7 : BitVec 7
  isCompressed : Bool
  rs3 : BitVec 5
  fmt : BitVec 2
  deriving DecidableEq, Repr

def immSBits (i : BitVec 32) : BitVec 12 := i.extractLsb' 25 7 ++ i.extractLsb' 7 5

def immBBits (i : BitVec 32) : BitVec 13 :=
  i.extractLsb' 31 1 ++ i.extractLsb' 7 1 ++ i.extractLsb' 25 6 ++ i.extractLsb' 8 4 ++ 0#1

def immJBits (i : BitVec 32) : BitVec 21 :=
  i.extractLsb' 31 1 ++ i.extractLsb' 12 8 ++ i.extractLsb' 20 1 ++ i.extractLsb' 21 10 ++ 0#1

def decodeFields (i : BitVec 32) : DecodedFields where
  imm12Se := (i.extractLsb' 20 12).signExtend 64
  immS := (immSBits i).signExtend 64
  immB := (immBBits i).signExtend 64
  immJ := (immJBits i).signExtend 64
  imm20Raw := i.extractLsb' 12 20
  func12 := i.extractLsb' 20 12
  opcode := i.extractLsb' 0 7
  rd := i.extractLsb' 7 5
  func3 := i.extractLsb' 12 3
  rs1 := i.extractLsb' 15 5
  rs2 := i.extractLsb' 20 5
  func7 := i.extractLsb' 25 7
  isCompressed := decide (i.extractLsb' 0 2 ≠ 3)
  rs3 := i.extractLsb' 27 5
  fmt := i.extractLsb' 25 2

/-! ## Compressed instructions -/

structure CompressedFields where
  imm : Word
  imm2 : Word
  quadrant : BitVec 2
  funct3 : BitVec 3
  rd : BitVec 5
  rs1 : BitVec 5
  rs2 : BitVec 5
  rdp : BitVec 5
  rs1p : BitVec 5
  sf : BitVec 2
  bit12 : BitVec 1
  bit65 : BitVec 2
  deriving DecidableEq, Repr

/-- Three register bits name `x8` to `x15`. -/
def creg (raw : BitVec 3) : BitVec 5 := 0b01#2 ++ raw

/-- C.ADDI4SPN: `nzuimm[9:6|5|4|3|2]`. -/
def immAddi4spn (h : BitVec 16) : BitVec 10 :=
  h.extractLsb' 7 4 ++ h.extractLsb' 12 1 ++ h.extractLsb' 11 1 ++ h.extractLsb' 5 1 ++
    h.extractLsb' 6 1 ++ 0#2

/-- C.LW and C.SW. -/
def immWordOff (h : BitVec 16) : BitVec 7 :=
  h.extractLsb' 5 1 ++ h.extractLsb' 10 3 ++ h.extractLsb' 6 1 ++ 0#2

/-- C.LD, C.SD, C.FLD and C.FSD. -/
def immDoubleOff (h : BitVec 16) : BitVec 8 := h.extractLsb' 5 2 ++ h.extractLsb' 10 3 ++ 0#3

/-- Six bits split around the register field. -/
def immSix (h : BitVec 16) : BitVec 6 := h.extractLsb' 12 1 ++ h.extractLsb' 2 5

/-- C.ADDI16SP. -/
def immAddi16sp (h : BitVec 16) : BitVec 10 :=
  h.extractLsb' 12 1 ++ h.extractLsb' 3 2 ++ h.extractLsb' 5 1 ++ h.extractLsb' 2 1 ++
    h.extractLsb' 6 1 ++ 0#4

/-- C.J. -/
def immCj (h : BitVec 16) : BitVec 12 :=
  h.extractLsb' 12 1 ++ h.extractLsb' 8 1 ++ h.extractLsb' 9 2 ++ h.extractLsb' 6 1 ++
    h.extractLsb' 7 1 ++ h.extractLsb' 2 1 ++ h.extractLsb' 11 1 ++ h.extractLsb' 3 3 ++ 0#1

/-- C.BEQZ and C.BNEZ. -/
def immCb (h : BitVec 16) : BitVec 9 :=
  h.extractLsb' 12 1 ++ h.extractLsb' 5 2 ++ h.extractLsb' 2 1 ++ h.extractLsb' 10 2 ++
    h.extractLsb' 3 2 ++ 0#1

/-- C.LDSP and C.FLDSP. -/
def immLdsp (h : BitVec 16) : BitVec 9 :=
  h.extractLsb' 2 3 ++ h.extractLsb' 12 1 ++ h.extractLsb' 5 2 ++ 0#3

/-- C.LWSP. -/
def immLwsp (h : BitVec 16) : BitVec 8 :=
  h.extractLsb' 2 2 ++ h.extractLsb' 12 1 ++ h.extractLsb' 4 3 ++ 0#2

/-- C.SWSP. -/
def immSwsp (h : BitVec 16) : BitVec 8 := h.extractLsb' 7 2 ++ h.extractLsb' 9 4 ++ 0#2

/-- C.SDSP and C.FSDSP. -/
def immSdsp (h : BitVec 16) : BitVec 9 := h.extractLsb' 7 3 ++ h.extractLsb' 10 3 ++ 0#3

def immC0 (h : BitVec 16) (funct3 : BitVec 3) : Word :=
  match funct3 with
  | 0 => (immAddi4spn h).setWidth 64
  | 2 | 6 => (immWordOff h).setWidth 64
  | 1 | 3 | 5 | 7 => (immDoubleOff h).setWidth 64
  | 4 => 0

def immC1 (h : BitVec 16) (funct3 : BitVec 3) : Word :=
  match funct3 with
  | 0 | 1 | 2 => (immSix h).signExtend 64
  | 3 => if h.extractLsb' 7 5 = 2 then (immAddi16sp h).signExtend 64 else (immSix h).signExtend 64
  | 5 => (immCj h).signExtend 64
  | 6 | 7 => (immCb h).signExtend 64
  | 4 => 0

def immC2 (h : BitVec 16) (funct3 : BitVec 3) : Word × Word :=
  match funct3 with
  | 0 => ((immSix h).setWidth 64, 0)
  | 1 | 3 => ((immLdsp h).setWidth 64, 0)
  | 2 => ((immLwsp h).setWidth 64, 0)
  | 6 => (0, (immSwsp h).setWidth 64)
  | 5 | 7 => (0, (immSdsp h).setWidth 64)
  | 4 => (0, 0)

def decodeCompImm (h : BitVec 16) (quadrant : BitVec 2) (funct3 : BitVec 3) : Word × Word :=
  match quadrant with
  | 0 => (immC0 h funct3, 0)
  | 1 => (immC1 h funct3, 0)
  | 2 => immC2 h funct3
  | 3 => (0, 0)

def decodeCompressed (h : BitVec 16) : CompressedFields :=
  let quadrant := h.extractLsb' 0 2
  let funct3 := h.extractLsb' 13 3
  let rdp := creg (h.extractLsb' 2 3)
  let rs1p := creg (h.extractLsb' 7 3)
  { imm := (decodeCompImm h quadrant funct3).1
    imm2 := (decodeCompImm h quadrant funct3).2
    quadrant := quadrant
    funct3 := funct3
    rd := if quadrant = 0 then rdp else h.extractLsb' 7 5
    rs1 := if quadrant = 0 then rs1p else h.extractLsb' 7 5
    rs2 := if quadrant = 0 then rdp else h.extractLsb' 2 5
    rdp := rdp
    rs1p := rs1p
    sf := h.extractLsb' 10 2
    bit12 := h.extractLsb' 12 1
    bit65 := h.extractLsb' 5 2 }

end Pyremu
