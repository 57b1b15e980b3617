import Pyremu.Alu
import Pyremu.Lib.Unbounded

/-!
# Integer arithmetic, the Python side

The functions of `core/decoder/alu.py`. Operands are unbounded integers that
hold register values; a `ValueError` for an encoding is `none`. `imm` is the
12-bit immediate, sign-extended and brought to the range of a register.
-/

namespace Pyremu

namespace AluPython

open Unbounded

def mask64 : Int → Int := mask 64
def mask32 : Int → Int := mask 32
def sint64 : Int → Int := sint 64
def sext8 : Int → Int := sext 8
def sext16 : Int → Int := sext 16
def sext32 : Int → Int := sext 32

/-- Division that truncates toward zero, `-1` for a zero divisor. -/
def truncDiv (a b : Int) : Int :=
  if b = 0 then -1
  else
    let q : Int := (a.natAbs / b.natAbs : Nat)
    if decide (a < 0) ^^ decide (b < 0) then -q else q

def truncRem (a b : Int) : Int := if b = 0 then a else a - truncDiv a b * b

def zbbUnary (v : Int) (shamt : Nat) : Option Int :=
  let u := mask64 v
  match shamt with
  | 0 => some (64 - bitLength u)
  | 1 => some (if u ≠ 0 then bitLength (Int.land u (-u)) - 1 else 64)
  | 2 => some (bitCount u)
  | 4 => some (sext8 u)
  | 5 => some (sext16 u)
  | _ => none

def zbbUnary32 (v : Int) (shamt : Nat) : Option Int :=
  let u := mask32 v
  match shamt with
  | 0 => some (32 - bitLength u)
  | 1 => some (if u ≠ 0 then bitLength (Int.land u (-u)) - 1 else 32)
  | 2 => some (bitCount u)
  | _ => none

def zbbOrcB (v : Int) : Int :=
  (List.range 8).foldl
    (fun result i => if Int.land (shr v (i * 8)) 0xFF ≠ 0 then Int.lor result (shl 0xFF (i * 8)) else result) 0

def zbbRev8 (v : Int) : Int :=
  (List.range 8).foldl
    (fun result i => Int.lor result (shl (Int.land (shr (mask64 v) (i * 8)) 0xFF) ((7 - i) * 8))) 0

def bset (v1 : Int) (shamt : Nat) : Int := mask64 (Int.lor v1 (shl 1 shamt))

def bclr (v1 : Int) (shamt : Nat) : Int := mask64 (Int.land v1 (Int.lnot (shl 1 shamt)))

def binv (v1 : Int) (shamt : Nat) : Int := mask64 (Int.xor v1 (shl 1 shamt))

def bext (v1 : Int) (shamt : Nat) : Int := Int.land (shr (mask64 v1) shamt) 1

/-! ## Register operands -/

def aluPy000 (funct7 : BitVec 7) (v1 v2 : Int) : Option Int :=
  match funct7 with
  | 0x00 => some (mask64 (v1 + v2))
  | 0x01 => some (mask64 (v1 * v2))
  | 0x20 => some (mask64 (v1 - v2))
  | _ => none

def aluPy001 (funct7 : BitVec 7) (v1 v2 : Int) : Option Int :=
  let shamt := (v2 % 64).toNat
  match funct7 with
  | 0x00 => some (mask64 (shl v1 shamt))
  | 0x01 => some (mask64 (sint64 (shr (sint64 v1 * sint64 v2) 64)))
  | 0x14 => some (bset v1 shamt)
  | 0x24 => some (bclr v1 shamt)
  | 0x30 => some (rol 64 v1 shamt)
  | 0x34 => some (binv v1 shamt)
  | _ => none

def aluPy010 (funct7 : BitVec 7) (v1 v2 : Int) : Option Int :=
  match funct7 with
  | 0x00 => some (if sint64 v1 < sint64 v2 then 1 else 0)
  | 0x01 => some (mask64 (sint64 (shr (sint64 v1 * mask64 v2) 64)))
  | 0x10 => some (mask64 (shl v1 1 + v2))
  | _ => none

def aluPy011 (funct7 : BitVec 7) (v1 v2 : Int) : Option Int :=
  match funct7 with
  | 0x00 => some (if mask64 v1 < mask64 v2 then 1 else 0)
  | 0x01 => some (mask64 (shr (mask64 v1 * mask64 v2) 64))
  | _ => none

def aluPy100 (funct7 : BitVec 7) (v1 v2 : Int) : Option Int :=
  match funct7 with
  | 0x00 => some (Int.xor v1 v2)
  | 0x01 => some (mask64 (truncDiv (sint64 v1) (sint64 v2)))
  | 0x05 => some (mask64 (min (sint64 v1) (sint64 v2)))
  | 0x10 => some (mask64 (shl v1 2 + v2))
  | 0x20 => some (mask64 (Int.lnot (Int.xor v1 v2)))
  | _ => none

def aluPy101 (funct7 : BitVec 7) (v1 v2 : Int) : Option Int :=
  let shamt := (v2 % 64).toNat
  match funct7 with
  | 0x00 => some (mask64 (shr (mask64 v1) shamt))
  | 0x01 => some (mask64 (truncDiv (mask64 v1) (mask64 v2)))
  | 0x05 => some (min (mask64 v1) (mask64 v2))
  | 0x20 => some (mask64 (sint64 (shr (sint64 v1) shamt)))
  | 0x24 => some (bext v1 shamt)
  | 0x30 => some (ror 64 v1 shamt)
  | _ => none

def aluPy110 (funct7 : BitVec 7) (v1 v2 : Int) : Option Int :=
  match funct7 with
  | 0x00 => some (Int.lor v1 v2)
  | 0x01 => some (mask64 (truncRem (sint64 v1) (sint64 v2)))
  | 0x05 => some (mask64 (max (sint64 v1) (sint64 v2)))
  | 0x10 => some (mask64 (shl v1 3 + v2))
  | 0x20 => some (mask64 (Int.lor v1 (Int.lnot v2)))
  | _ => none

def aluPy111 (funct7 : BitVec 7) (v1 v2 : Int) : Option Int :=
  match funct7 with
  | 0x00 => some (Int.land v1 v2)
  | 0x01 => some (mask64 (truncRem (mask64 v1) (mask64 v2)))
  | 0x05 => some (max (mask64 v1) (mask64 v2))
  | 0x20 => some (mask64 (Int.land v1 (Int.lnot v2)))
  | _ => none

def aluPyOps (funct3 : BitVec 3) : BitVec 7 → Int → Int → Option Int :=
  match funct3 with
  | 0b000 => aluPy000
  | 0b001 => aluPy001
  | 0b010 => aluPy010
  | 0b011 => aluPy011
  | 0b100 => aluPy100
  | 0b101 => aluPy101
  | 0b110 => aluPy110
  | 0b111 => aluPy111

/-! ## An immediate operand -/

def opImmPy000 (_funct6 : BitVec 6) (v1 imm : Int) (_shamt : Nat) : Option Int := some (mask64 (v1 + imm))

def opImmPy001 (funct6 : BitVec 6) (v1 _imm : Int) (shamt : Nat) : Option Int :=
  match funct6 with
  | 0x00 => some (mask64 (shl v1 shamt))
  | 0x0A => some (bset v1 shamt)
  | 0x12 => some (bclr v1 shamt)
  | 0x18 => zbbUnary v1 shamt
  | 0x1A => some (binv v1 shamt)
  | _ => none

/-- The immediate is compared as it stands, a negative one as a large one. -/
def opImmPy010 (_funct6 : BitVec 6) (v1 imm : Int) (_shamt : Nat) : Option Int :=
  some (if sint64 v1 < imm then 1 else 0)

def opImmPy011 (_funct6 : BitVec 6) (v1 imm : Int) (_shamt : Nat) : Option Int :=
  some (if mask64 v1 < mask64 imm then 1 else 0)

def opImmPy100 (_funct6 : BitVec 6) (v1 imm : Int) (_shamt : Nat) : Option Int := some (Int.xor v1 imm)

def opImmPy101 (funct6 : BitVec 6) (v1 imm : Int) (shamt : Nat) : Option Int :=
  match funct6 with
  | 0x00 => some (mask64 (shr (mask64 v1) shamt))
  | 0x0A => if imm ≠ 0x287 then none else some (zbbOrcB v1)
  | 0x10 => some (mask64 (sint64 (shr (sint64 v1) shamt)))
  | 0x12 => some (bext v1 shamt)
  | 0x18 => some (ror 64 v1 shamt)
  | 0x1A => if imm ≠ 0x6B8 then none else some (zbbRev8 v1)
  | _ => none

def opImmPy110 (_funct6 : BitVec 6) (v1 imm : Int) (_shamt : Nat) : Option Int := some (Int.lor v1 imm)

def opImmPy111 (_funct6 : BitVec 6) (v1 imm : Int) (_shamt : Nat) : Option Int := some (Int.land v1 imm)

def opImmPyOps (funct3 : BitVec 3) : BitVec 6 → Int → Int → Nat → Option Int :=
  match funct3 with
  | 0b000 => opImmPy000
  | 0b001 => opImmPy001
  | 0b010 => opImmPy010
  | 0b011 => opImmPy011
  | 0b100 => opImmPy100
  | 0b101 => opImmPy101
  | 0b110 => opImmPy110
  | 0b111 => opImmPy111

/-- The pure path of `exec_op_imm`. -/
def opImmPy (funct3 : BitVec 3) (funct7 : BitVec 7) (v1 imm : Int) : Option Int :=
  opImmPyOps funct3 (funct7.extractLsb' 1 6) v1 imm (imm % 64).toNat

/-! ## Words of 32 bits: `v1` and `v2` are cut down already -/

def op32Py000 (funct7 : BitVec 7) (v1 v2 : Int) : Option Int :=
  match funct7 with
  | 0x00 => some (sext32 (mask32 (v1 + v2)))
  | 0x01 => some (sext32 (mask32 (v1 * v2)))
  | 0x20 => some (sext32 (mask32 (v1 - v2)))
  | _ => none

def op32Py001 (funct7 : BitVec 7) (v1 v2 : Int) : Option Int :=
  let shamt := (v2 % 32).toNat
  match funct7 with
  | 0x00 => some (sext32 (mask32 (shl v1 shamt)))
  | 0x01 => some (mask64 (sint64 (shr (sint64 (sext32 v1) * sint64 (sext32 v2)) 32)))
  | 0x30 => some (sext32 (rol 32 v1 shamt))
  | _ => none

def op32Py010 (funct7 : BitVec 7) (v1 v2 : Int) : Option Int :=
  match funct7 with
  | 0x00 => some (if sint64 (sext32 v1) < sint64 (sext32 v2) then 1 else 0)
  | 0x01 => some (mask64 (sint64 (shr (sint64 (sext32 v1) * mask64 v2) 32)))
  | _ => none

def op32Py011 (funct7 : BitVec 7) (v1 v2 : Int) : Option Int :=
  match funct7 with
  | 0x00 => some (if v1 < v2 then 1 else 0)
  | 0x01 => some (mask64 (shr (v1 * v2) 32))
  | _ => none

def op32Py100 (funct7 : BitVec 7) (v1 v2 : Int) : Option Int :=
  match funct7 with
  | 0x00 => some (sext32 (mask32 (Int.xor v1 v2)))
  | 0x01 => some (sext32 (mask32 (truncDiv (sint64 (sext32 v1)) (sint64 (sext32 v2)))))
  | _ => none

def op32Py101 (funct7 : BitVec 7) (v1 v2 : Int) : Option Int :=
  let shamt := (v2 % 32).toNat
  match funct7 with
  | 0x00 => some (sext32 (mask32 (shr v1 shamt)))
  | 0x01 => some (sext32 (mask32 (truncDiv v1 v2)))
  | 0x20 => some (sext32 (mask32 (sint64 (shr (sext32 v1) shamt))))
  | 0x30 => some (sext32 (ror 32 v1 shamt))
  | _ => none

def op32Py110 (funct7 : BitVec 7) (v1 v2 : Int) : Option Int :=
  match funct7 with
  | 0x00 => some (sext32 (mask32 (Int.lor v1 v2)))
  | 0x01 => some (sext32 (mask32 (truncRem (sint64 (sext32 v1)) (sint64 (sext32 v2)))))
  | _ => none

def op32Py111 (funct7 : BitVec 7) (v1 v2 : Int) : Option Int :=
  match funct7 with
  | 0x00 => some (sext32 (mask32 (Int.land v1 v2)))
  | 0x01 => some (sext32 (mask32 (truncRem v1 v2)))
  | _ => none

def op32PyOps (funct3 : BitVec 3) : BitVec 7 → Int → Int → Option Int :=
  match funct3 with
  | 0b000 => op32Py000
  | 0b001 => op32Py001
  | 0b010 => op32Py010
  | 0b011 => op32Py011
  | 0b100 => op32Py100
  | 0b101 => op32Py101
  | 0b110 => op32Py110
  | 0b111 => op32Py111

/-- The forms that add a whole second operand, with the shift of the first. -/
def op32UwShift (funct3 : BitVec 3) (funct7 : BitVec 7) : Option Nat :=
  match funct3, funct7 with
  | 0b000, 0x04 => some 0
  | 0b010, 0x10 => some 1
  | 0b100, 0x10 => some 2
  | 0b110, 0x10 => some 3
  | _, _ => none

def op32Py (funct3 : BitVec 3) (funct7 : BitVec 7) (v1 v2 : Int) : Option Int :=
  match op32UwShift funct3 funct7 with
  | some shift => some (mask64 (shl (mask32 v1) shift + v2))
  | none => op32PyOps funct3 funct7 (mask32 v1) (mask32 v2)

/-! ## Words of 32 bits and an immediate

`shamt` is the low 6 bits of the immediate. -/

def opImm32Py000 (_funct7 : BitVec 7) (v1 imm : Int) (_shamt : Nat) : Option Int :=
  some (sext32 (mask32 (v1 + imm)))

def opImm32Py001 (funct7 : BitVec 7) (v1 _imm : Int) (shamt : Nat) : Option Int :=
  match funct7 with
  | 0x00 => some (sext32 (mask32 (shl (mask32 v1) (shamt % 32))))
  | 0x04 => some (mask64 (shl (mask32 v1) shamt))
  | 0x05 => some (mask64 (shl (mask32 v1) shamt))
  | 0x30 => zbbUnary32 v1 shamt
  | _ => none

def opImm32Py101 (funct7 : BitVec 7) (v1 _imm : Int) (shamt : Nat) : Option Int :=
  let shamt := shamt % 32
  match funct7 with
  | 0x00 => some (sext32 (mask32 (shr (mask32 v1) shamt)))
  | 0x20 => some (sext32 (mask32 (sint64 (shr (sext32 (mask32 v1)) shamt))))
  | 0x30 => some (sext32 (ror 32 v1 shamt))
  | _ => none

def opImm32Py (funct3 : BitVec 3) (funct7 : BitVec 7) (v1 imm : Int) : Option Int :=
  let shamt := (imm % 64).toNat
  match funct3 with
  | 0b000 => opImm32Py000 funct7 v1 imm shamt
  | 0b001 => opImm32Py001 funct7 v1 imm shamt
  | 0b101 => opImm32Py101 funct7 v1 imm shamt
  | _ => none

end AluPython

end Pyremu
