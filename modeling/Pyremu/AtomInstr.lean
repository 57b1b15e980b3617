import Pyremu.LoadStore

/-!
# LR, SC and AMO

The instructions of the A extension on the concurrent path. Every access is
naturally aligned, so the atomic operation on the host word is one update of
the byte memory. The retry loop of the compare-exchange ends in the first round
when no other hart runs between the load and the exchange.
-/

namespace Pyremu

open ByteMem

/-- LR loads, fills the hart's own reservation, and then publishes it in the
array shared by all harts. A `.W` load is sign-extended. -/
def execLr (s : HartState) (width : Nat) (rd : BitVec 5) (pa : Word) (off : Nat) (c : WalkCtx) :
    HartState × WalkCtx :=
  let raw := readLe c.ram off width
  let loaded := if width = 4 then (raw.setWidth 32).signExtend 64 else raw
  ({ s with
      reservationValid := true, reservationAddr := pa, reservationValue := loaded
      gprs := Function.update s.gprs rd (if rd ≠ 0 then loaded else 0) },
    lrSet c (s.mhartid.setWidth 8).toNat pa)

/-- The operand of a compare or of a store, at the width of the access. -/
def amoTrunc (width : Nat) (v : Word) : Word := if width = 4 then v &&& 0xFFFFFFFF else v

def execSc (s : HartState) (width : Nat) (rs2Val : Word) (rd : BitVec 5) (pa : Word) (off : Nat)
    (c : WalkCtx) : HartState × WalkCtx :=
  let sharedOk := lrCheck c (s.mhartid.setWidth 8).toNat pa
  if !sharedOk ∨ !s.reservationValid ∨ s.reservationAddr ≠ pa then
    (writeGpr { s with reservationValid := false } rd 1, c)
  else
    let c := lrClearAll c
    let success := decide (readLe c.ram off width = amoTrunc width s.reservationValue)
    let c := if success then { c with ram := writeLe c.ram off width rs2Val } else c
    (writeGpr { s with reservationValid := false } rd (if success then 0 else 1), c)

/-- `min` and `max` of the host integers at one width. -/
def smin {w : Nat} (a b : BitVec w) : BitVec w := if a.slt b then a else b
def smax {w : Nat} (a b : BitVec w) : BitVec w := if a.slt b then b else a
def umin {w : Nat} (a b : BitVec w) : BitVec w := if a.ult b then a else b
def umax {w : Nat} (a b : BitVec w) : BitVec w := if a.ult b then b else a

/-- The value an AMO stores, `none` for an encoding that is none. -/
def amoValue {w : Nat} (funct5 : BitVec 5) (cur rs2 : BitVec w) : Option (BitVec w) :=
  match funct5 with
  | 0b00001 => some rs2
  | 0b00000 => some (cur + rs2)
  | 0b00100 => some (cur ^^^ rs2)
  | 0b01100 => some (cur &&& rs2)
  | 0b01000 => some (cur ||| rs2)
  | 0b10000 => some (smin cur rs2)
  | 0b10100 => some (smax cur rs2)
  | 0b11000 => some (umin cur rs2)
  | 0b11100 => some (umax cur rs2)
  | _ => none

/-- The new memory word at the width of the access. -/
def amoNew (funct5 : BitVec 5) (width : Nat) (cur rs2Val : Word) : Option Word :=
  if width = 4 then
    (amoValue funct5 (cur.setWidth 32) (rs2Val.setWidth 32)).map fun v => v.setWidth 64
  else amoValue funct5 cur rs2Val

/-- The old value goes to `rd` as it is, without sign extension. -/
def execAmoRmw (s : HartState) (funct5 : BitVec 5) (width : Nat) (rs2Val : Word) (rd : BitVec 5)
    (off : Nat) (c : WalkCtx) : HartState × WalkCtx :=
  let c := lrClearAll c
  let cur := readLe c.ram off width
  match amoNew funct5 width cur rs2Val with
  | some new => (writeGpr s rd cur, { c with ram := writeLe c.ram off width new })
  | none => (writeGpr s rd 0, c)

/-- `funct5` of LR, of SC, and of the nine read-modify-write operations. -/
def isLr (funct5 : BitVec 5) : Bool := funct5 == 0b00010
def isSc (funct5 : BitVec 5) : Bool := funct5 == 0b00011

def isRmw (funct5 : BitVec 5) : Bool :=
  [0b00001#5, 0b00000, 0b00100, 0b01100, 0b01000, 0b10000, 0b10100, 0b11000, 0b11100].contains
    funct5

/-- A `funct5` that no branch of `exec_amo_op` serves. -/
def amoReserved (funct5 : BitVec 5) : Bool := !isLr funct5 && !isSc funct5 && !isRmw funct5

def execAmoOp (s : HartState) (funct5 : BitVec 5) (width : Nat) (rs2Val : Word) (rd : BitVec 5)
    (pa : Word) (off : Nat) (c : WalkCtx) : HartState × WalkCtx × Word :=
  if isLr funct5 then
    let r := execLr s width rd pa off c
    (r.1, r.2, 4)
  else if isSc funct5 then
    let r := execSc s width rs2Val rd pa off c
    (r.1, r.2, 4)
  else if isRmw funct5 then
    let r := execAmoRmw s funct5 width rs2Val rd off c
    (r.1, r.2, 4)
  else (s, c, 0)

def amoWidth (func3 : BitVec 3) : Option Nat :=
  match func3 with
  | 0b010 => some 4
  | 0b011 => some 8
  | _ => none

/-- Each failed check returns 0 for the caller to handle. -/
def handleAmoConcurrent (w : World) (funct5 : BitVec 5) (func3 : BitVec 3) (rs2Val : Word)
    (rd : BitVec 5) (pa : Word) : World × Word :=
  match amoWidth func3 with
  | none => (w, 0)
  | some width =>
    if !aligned pa width then (w, 0)
    else if !pmpOk w.hart pa width true false w.pmp then (w, 0)
    else if isDeviceAddr pa w.dev then (w, exitSentinel)
    else
      match HartSched.ramOffset w.mem.toLayout pa width with
      | none => (w, 0)
      | some off =>
        let r := execAmoOp w.hart funct5 width rs2Val rd pa off.toNat w.mem
        ({ w with hart := r.1, mem := r.2.1 }, r.2.2)

def handleAmoConcurrentDispatch (cfg : Features) (w : World) (f : DecodedFields)
    (instr : BitVec 32) : World × Word :=
  let funct5 := f.func7.extractLsb' 2 5
  match amoWidth f.func3 with
  | none => (w.illegal instr, 0)
  | some width =>
    let va := readGpr w.hart f.rs1
    if !aligned va width then (w.trap Exc.ldMisaligned va, 0)
    else
      match translateAccess cfg w va .write width Exc.ldAccessFault va va with
      | (w, none) => (w, 0)
      | (w, some pa) =>
        let rs2Val := readGpr w.hart f.rs2
        match w.tryVirtio pa true rs2Val with
        | (w, some _) => (w, 4)
        | (w, none) =>
          if isDeviceAddr pa w.dev then (w.requestStop .mmio instr, exitSentinel)
          else
            match handleAmoConcurrent w funct5 f.func3 rs2Val f.rd pa with
            | (w, adv) =>
              if adv = exitSentinel then (w.requestStop .mmio instr, adv) else (w, adv)

end Pyremu
