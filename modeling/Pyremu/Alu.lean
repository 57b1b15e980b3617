import Pyremu.State

/-!
# Integer arithmetic

`exec_alu_op`, `exec_op_imm`, `exec_op32` and `exec_op_imm32`. The result is
`none` where the source returns the trap flag of an illegal encoding.
-/

namespace Pyremu

def countOnes {n : Nat} (v : BitVec n) : Nat := (List.range n).countP v.getLsbD

/-- `value` when `c` holds, zero otherwise. -/
def ofBool (c : Bool) : Word := if c then 1 else 0

/-- High half of a product of integers. -/
def mulHigh (a b : Int) : Word := BitVec.ofInt 64 ((a * b) >>> (64 : Nat))

/-- Signed division, all ones for a zero divisor. The overflowing quotient wraps. -/
def divS {n : Nat} (a b : BitVec n) : BitVec n := if b = 0 then BitVec.allOnes n else a.sdiv b

def remS {n : Nat} (a b : BitVec n) : BitVec n := if b = 0 then a else a.srem b

def divU {n : Nat} (a b : BitVec n) : BitVec n := if b = 0 then BitVec.allOnes n else a / b

def remU {n : Nat} (a b : BitVec n) : BitVec n := if b = 0 then a else a % b

def execAluOp (funct3 : BitVec 3) (funct7 : BitVec 7) (v1 v2 : Word) : Option Word :=
  let shamt := v2.toNat % 64
  match funct3, funct7 with
  | 0b000, 0x00 => some (v1 + v2)
  | 0b000, 0x01 => some (v1 * v2)
  | 0b000, 0x20 => some (v1 - v2)
  | 0b001, 0x00 => some (v1 <<< shamt)
  | 0b001, 0x01 => some (mulHigh v1.toInt v2.toInt)
  | 0b001, 0x14 => some (v1 ||| (1#64 <<< shamt))
  | 0b001, 0x24 => some (v1 &&& ~~~(1#64 <<< shamt))
  | 0b001, 0x30 => some (v1.rotateLeft shamt)
  | 0b001, 0x34 => some (v1 ^^^ (1#64 <<< shamt))
  | 0b010, 0x00 => some (ofBool (v1.slt v2))
  | 0b010, 0x01 => some (mulHigh v1.toInt v2.toNat)
  | 0b010, 0x10 => some ((v1 <<< 1) + v2)
  | 0b011, 0x00 => some (ofBool (v1.ult v2))
  | 0b011, 0x01 => some (mulHigh v1.toNat v2.toNat)
  | 0b100, 0x00 => some (v1 ^^^ v2)
  | 0b100, 0x01 => some (divS v1 v2)
  | 0b100, 0x05 => some (if v1.slt v2 then v1 else v2)
  | 0b100, 0x10 => some ((v1 <<< 2) + v2)
  | 0b100, 0x20 => some (~~~(v1 ^^^ v2))
  | 0b101, 0x00 => some (v1 >>> shamt)
  | 0b101, 0x01 => some (divU v1 v2)
  | 0b101, 0x05 => some (if v1.ult v2 then v1 else v2)
  | 0b101, 0x20 => some (v1.sshiftRight shamt)
  | 0b101, 0x24 => some ((v1 >>> shamt) &&& 1)
  | 0b101, 0x30 => some (v1.rotateRight shamt)
  | 0b110, 0x00 => some (v1 ||| v2)
  | 0b110, 0x01 => some (remS v1 v2)
  | 0b110, 0x05 => some (if v2.slt v1 then v1 else v2)
  | 0b110, 0x10 => some ((v1 <<< 3) + v2)
  | 0b110, 0x20 => some (v1 ||| ~~~v2)
  | 0b111, 0x00 => some (v1 &&& v2)
  | 0b111, 0x01 => some (remU v1 v2)
  | 0b111, 0x05 => some (if v2.ult v1 then v1 else v2)
  | 0b111, 0x20 => some (v1 &&& ~~~v2)
  | _, _ => none

/-- `orc.b`: every byte with a set bit becomes all ones. -/
def orcB (v : Word) : Word :=
  (List.range 8).foldl
    (fun out i => if (v >>> (i * 8)) &&& 0xFF ≠ 0 then out ||| (0xFF#64 <<< (i * 8)) else out) 0

/-- The bytes in reverse order. -/
def swapBytes (v : Word) : Word :=
  (List.range 8).foldl
    (fun out i => out ||| (((v >>> (i * 8)) &&& 0xFF) <<< ((7 - i) * 8))) 0

/-- Unary Zbb operations selected by the immediate. -/
def zbbUnaryImm (v : Word) (shamt : Nat) : Option Word :=
  match shamt with
  | 0 => some v.clz
  | 1 => some v.ctz
  | 2 => some (BitVec.ofNat 64 (countOnes v))
  | 4 => some ((v.setWidth 8).signExtend 64)
  | 5 => some ((v.setWidth 16).signExtend 64)
  | _ => none

def execOpImm (funct3 : BitVec 3) (funct7 : BitVec 7) (v1 imm : Word) : Option Word :=
  let shamt := imm.toNat % 64
  let funct6 : BitVec 6 := funct7.extractLsb' 1 6
  match funct3 with
  | 0b000 => some (v1 + imm)
  | 0b001 =>
    match funct6 with
    | 0x00 => some (v1 <<< shamt)
    | 0x0A => some (v1 ||| (1#64 <<< shamt))
    | 0x12 => some (v1 &&& ~~~(1#64 <<< shamt))
    | 0x18 => zbbUnaryImm v1 shamt
    | 0x1A => some (v1 ^^^ (1#64 <<< shamt))
    | _ => none
  | 0b010 => some (ofBool (v1.slt imm))
  | 0b011 => some (ofBool (v1.ult imm))
  | 0b100 => some (v1 ^^^ imm)
  | 0b101 =>
    match funct6 with
    | 0x00 => some (v1 >>> shamt)
    | 0x0A => if imm = 0x287 then some (orcB v1) else none
    | 0x10 => some (v1.sshiftRight shamt)
    | 0x12 => some ((v1 >>> shamt) &&& 1)
    | 0x18 => some (v1.rotateRight shamt)
    | 0x1A => if imm = 0x6B8 then some (swapBytes v1) else none
    | _ => none
  | 0b110 => some (v1 ||| imm)
  | 0b111 => some (v1 &&& imm)

def execOp32 (funct3 : BitVec 3) (funct7 : BitVec 7) (v1 v2 : Word) : Option Word :=
  let uw1 : Word := v1 &&& 0xFFFFFFFF
  let w1 : BitVec 32 := v1.setWidth 32
  let w2 : BitVec 32 := v2.setWidth 32
  let shamt := w2.toNat % 32
  let sx := fun (w : BitVec 32) => some (w.signExtend 64)
  match funct3, funct7 with
  | 0b000, 0x04 => some (uw1 + v2)
  | 0b010, 0x10 => some ((uw1 <<< 1) + v2)
  | 0b100, 0x10 => some ((uw1 <<< 2) + v2)
  | 0b110, 0x10 => some ((uw1 <<< 3) + v2)
  | 0b000, 0x00 => sx (w1 + w2)
  | 0b000, 0x01 => sx (w1 * w2)
  | 0b000, 0x20 => sx (w1 - w2)
  | 0b001, 0x00 => sx (w1 <<< shamt)
  | 0b001, 0x30 => sx (w1.rotateLeft shamt)
  | 0b100, 0x01 => sx (divS w1 w2)
  | 0b101, 0x00 => sx (w1 >>> shamt)
  | 0b101, 0x01 => sx (divU w1 w2)
  | 0b101, 0x20 => sx (w1.sshiftRight shamt)
  | 0b101, 0x30 => sx (w1.rotateRight shamt)
  | 0b110, 0x01 => sx (remS w1 w2)
  | 0b111, 0x01 => sx (remU w1 w2)
  | _, _ => none

def execOpImm32 (funct3 : BitVec 3) (funct7 : BitVec 7) (v1 imm : Word) : Option Word :=
  let w1 : BitVec 32 := v1.setWidth 32
  let shamt := imm.toNat % 32
  let sx := fun (w : BitVec 32) => some (w.signExtend 64)
  if funct3 = 0b001 ∧ funct7.extractLsb' 1 6 = 0x02 then
    some ((v1 &&& 0xFFFFFFFF) <<< (imm.toNat % 64))
  else
    match funct3, funct7 with
    | 0b000, _ => sx (w1 + imm.setWidth 32)
    | 0b001, 0x00 => sx (w1 <<< shamt)
    | 0b001, 0x30 =>
      if shamt = 0 then sx w1.clz
      else if shamt = 1 then sx w1.ctz
      else if shamt = 2 then sx (BitVec.ofNat 32 (countOnes w1))
      else none
    | 0b101, 0x00 => sx (w1 >>> shamt)
    | 0b101, 0x20 => sx (w1.sshiftRight shamt)
    | 0b101, 0x30 => sx (w1.rotateRight shamt)
    | _, _ => none

end Pyremu
