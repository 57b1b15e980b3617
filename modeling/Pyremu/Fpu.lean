import Pyremu.State

/-!
# Floating-point instructions

`fp_exec_op` and `fp_exec_fma`. The arithmetic of the external softfloat
package is a parameter; encodings, NaN boxing, sign injection, minimum and
maximum are the engine's own.
-/

namespace Pyremu

inductive RoundingMode where
  | rne | rtz | rdn | rup | rmm
  deriving DecidableEq, Repr

/-- Operations of the softfloat package at one width; each arithmetic result
comes with its exception flags. -/
structure FloatOps (n : Nat) where
  add : RoundingMode → BitVec n → BitVec n → BitVec n × BitVec 8
  sub : RoundingMode → BitVec n → BitVec n → BitVec n × BitVec 8
  mul : RoundingMode → BitVec n → BitVec n → BitVec n × BitVec 8
  div : RoundingMode → BitVec n → BitVec n → BitVec n × BitVec 8
  sqrt : RoundingMode → BitVec n → BitVec n × BitVec 8
  fusedMulAdd : RoundingMode → BitVec n → BitVec n → BitVec n → BitVec n × BitVec 8
  le : BitVec n → BitVec n → Bool × BitVec 8
  lt : BitVec n → BitVec n → Bool × BitVec 8
  eq : BitVec n → BitVec n → Bool × BitVec 8
  toI32 : RoundingMode → BitVec n → BitVec 32 × BitVec 8
  toU32 : RoundingMode → BitVec n → BitVec 32 × BitVec 8
  toI64 : RoundingMode → BitVec n → Word × BitVec 8
  toU64 : RoundingMode → BitVec n → Word × BitVec 8
  fromI32 : RoundingMode → BitVec 32 → BitVec n × BitVec 8
  fromU32 : RoundingMode → BitVec 32 → BitVec n × BitVec 8
  fromI64 : RoundingMode → Word → BitVec n × BitVec 8
  fromU64 : RoundingMode → Word → BitVec n × BitVec 8
  isNegativeInfinity : BitVec n → Bool
  isNegativeNormal : BitVec n → Bool
  isNegativeSubnormal : BitVec n → Bool
  isNegativeZero : BitVec n → Bool
  isPositiveZero : BitVec n → Bool
  isPositiveSubnormal : BitVec n → Bool
  isPositiveNormal : BitVec n → Bool
  isPositiveInfinity : BitVec n → Bool
  isSignalingNan : BitVec n → Bool
  isNan : BitVec n → Bool
  isZero : BitVec n → Bool
  deriving Inhabited

/-- Both widths and the conversions between them. -/
structure SoftFloat where
  s : FloatOps 32
  d : FloatOps 64
  toF64 : RoundingMode → BitVec 32 → Word × BitVec 8
  toF32 : RoundingMode → Word → BitVec 32 × BitVec 8
  deriving Inhabited

structure FpOut where
  value : Word
  fflags : BitVec 8
  toGpr : Bool
  deriving DecidableEq, Repr

def nanboxS : Word := 0xffffffff00000000

def boxS (v : BitVec 32) : Word := nanboxS ||| v.setWidth 64

def unboxS (bits : Word) : BitVec 32 :=
  if bits &&& nanboxS = nanboxS then bits.setWidth 32 else 0x7fc00000

def resolveRm (instRm frm : BitVec 3) : Option RoundingMode :=
  match if instRm = 7 then frm else instRm with
  | 0 => some .rne
  | 1 => some .rtz
  | 2 => some .rdn
  | 3 => some .rup
  | 4 => some .rmm
  | _ => none

section Generic

variable {n : Nat} (o : FloatOps n)

def fclassGeneric (f : BitVec n) : Word :=
  [o.isNegativeInfinity f, o.isNegativeNormal f, o.isNegativeSubnormal f, o.isNegativeZero f,
    o.isPositiveZero f, o.isPositiveSubnormal f, o.isPositiveNormal f, o.isPositiveInfinity f,
    o.isSignalingNan f, !o.isSignalingNan f && o.isNan f].zipIdx.foldl
    (fun m x => if x.1 then m ||| (1#64 <<< x.2) else m) 0

/-- FSGNJ, FSGNJN and FSGNJX. -/
def sgnj (rs1 rs2 : BitVec n) (funct3 : BitVec 3) : Option (BitVec n) :=
  let signBit : BitVec n := 1#n <<< (n - 1)
  let mag := rs1 &&& ~~~signBit
  match funct3 with
  | 0 => some (mag ||| (rs2 &&& signBit))
  | 1 => some (mag ||| (~~~rs2 &&& signBit))
  | 2 => some (mag ||| ((rs1 ^^^ rs2) &&& signBit))
  | _ => none

def minmax (canonicalNan a b : BitVec n) (isMax : Bool) : BitVec n × BitVec 8 :=
  let fflags : BitVec 8 := if o.isSignalingNan a || o.isSignalingNan b then 16 else 0
  if o.isNan a && o.isNan b then (canonicalNan, fflags)
  else if o.isNan a then (b, fflags)
  else if o.isNan b then (a, fflags)
  else if o.isZero a && o.isZero b then
    let aNeg := a.getLsbD (n - 1)
    (if (if isMax then !aNeg else aNeg) then a else b, fflags)
  else
    let lt := (o.lt a b).1
    (if (if isMax then !lt else lt) then a else b, fflags)

def arith (op5 : BitVec 5) (rnd : RoundingMode) (a b : BitVec n) : BitVec n × BitVec 8 :=
  match op5 with
  | 0 => o.add rnd a b
  | 1 => o.sub rnd a b
  | 2 => o.mul rnd a b
  | _ => o.div rnd a b

def fpCompare (funct3 : BitVec 3) (a b : BitVec n) : Option (Bool × BitVec 8) :=
  match funct3 with
  | 0 => some (o.le a b)
  | 1 => some (o.lt a b)
  | 2 => some (o.eq a b)
  | _ => none

/-- W and WU results are sign-extended. -/
def cvtF2i (rs2 : BitVec 5) (rnd : RoundingMode) (a : BitVec n) : Option (Word × BitVec 8) :=
  match rs2 with
  | 0 => some ((o.toI32 rnd a).1.signExtend 64, (o.toI32 rnd a).2)
  | 1 => some ((o.toU32 rnd a).1.signExtend 64, (o.toU32 rnd a).2)
  | 2 => some (o.toI64 rnd a)
  | 3 => some (o.toU64 rnd a)
  | _ => none

def cvtI2f (rs2 : BitVec 5) (rnd : RoundingMode) (v : Word) : Option (BitVec n × BitVec 8) :=
  match rs2 with
  | 0 => some (o.fromI32 rnd (v.setWidth 32))
  | 1 => some (o.fromU32 rnd (v.setWidth 32))
  | 2 => some (o.fromI64 rnd v)
  | 3 => some (o.fromU64 rnd v)
  | _ => none

end Generic

def fpr (r : Word × BitVec 8) : FpOut := ⟨r.1, r.2, false⟩
def fprS (r : BitVec 32 × BitVec 8) : FpOut := ⟨boxS r.1, r.2, false⟩
def gpr (r : Word × BitVec 8) : FpOut := ⟨r.1, r.2, true⟩
def gprBool (r : Bool × BitVec 8) : FpOut := ⟨if r.1 then 1 else 0, r.2, true⟩

def fpExecOp (f : SoftFloat) (funct7 : BitVec 7) (funct3 : BitVec 3) (rs2 : BitVec 5)
    (a b : Word) (frm : BitVec 3) : Option FpOut :=
  let fmt := funct7.extractLsb' 0 2
  let op5 := funct7.extractLsb' 2 5
  let isDouble := decide (fmt = 1)
  if fmt ≠ 0 ∧ fmt ≠ 1 then none
  else
    match op5 with
    | 0x00 | 0x01 | 0x02 | 0x03 =>
      (resolveRm funct3 frm).map fun rnd =>
        if isDouble then fpr (arith f.d op5 rnd a b)
        else fprS (arith f.s op5 rnd (unboxS a) (unboxS b))
    | 0x04 =>
      if isDouble then (sgnj a b funct3).map fun r => fpr (r, 0)
      else (sgnj (unboxS a) (unboxS b) funct3).map fun r => fprS (r, 0)
    | 0x05 =>
      if 1 < funct3 then none
      else if isDouble then some (fpr (minmax f.d 0x7ff8000000000000 a b (decide (funct3 = 1))))
      else some (fprS (minmax f.s 0x7fc00000 (unboxS a) (unboxS b) (decide (funct3 = 1))))
    | 0x0b =>
      if rs2 ≠ 0 then none
      else
        (resolveRm funct3 frm).map fun rnd =>
          if isDouble then fpr (f.d.sqrt rnd a) else fprS (f.s.sqrt rnd (unboxS a))
    | 0x14 =>
      if isDouble then (fpCompare f.d funct3 a b).map gprBool
      else (fpCompare f.s funct3 (unboxS a) (unboxS b)).map gprBool
    | 0x18 =>
      (resolveRm funct3 frm).bind fun rnd =>
        if isDouble then (cvtF2i f.d rs2 rnd a).map gpr
        else (cvtF2i f.s rs2 rnd (unboxS a)).map gpr
    | 0x1a =>
      (resolveRm funct3 frm).bind fun rnd =>
        if isDouble then (cvtI2f f.d rs2 rnd a).map fpr else (cvtI2f f.s rs2 rnd a).map fprS
    | 0x1c =>
      match funct3 with
      | 0 => some (gpr (if isDouble then a else (unboxS a).signExtend 64, 0))
      | 1 => some (gpr (if isDouble then fclassGeneric f.d a else fclassGeneric f.s (unboxS a), 0))
      | _ => none
    | 0x1e =>
      if funct3 ≠ 0 then none
      else if isDouble then some (fpr (a, 0)) else some (fprS (a.setWidth 32, 0))
    | 0x08 =>
      (resolveRm funct3 frm).bind fun rnd =>
        if isDouble then (if rs2 ≠ 0 then none else some (fpr (f.toF64 rnd (unboxS a))))
        else (if rs2 ≠ 1 then none else some (fprS (f.toF32 rnd a)))
    | _ => none

def maybeNeg {n : Nat} (bits : BitVec n) (neg : Bool) : BitVec n :=
  if neg then bits ^^^ (1#n <<< (n - 1)) else bits

def fpExecFma (f : SoftFloat) (opcode : BitVec 7) (rm : BitVec 3) (fmt : BitVec 2)
    (rs1 rs2 rs3 : Word) (frm : BitVec 3) : Option FpOut :=
  match resolveRm rm frm with
  | none => none
  | some rnd =>
    if fmt ≠ 0 ∧ fmt ≠ 1 then none
    else
      let negProd := decide (opcode = 0x4b ∨ opcode = 0x4f)
      let negAdd := decide (opcode = 0x47 ∨ opcode = 0x4f)
      if fmt = 1 then
        some (fpr (f.d.fusedMulAdd rnd (maybeNeg rs1 negProd) rs2 (maybeNeg rs3 negAdd)))
      else
        some (fprS (f.s.fusedMulAdd rnd (maybeNeg (unboxS rs1) negProd) (unboxS rs2)
          (maybeNeg (unboxS rs3) negAdd)))

end Pyremu
