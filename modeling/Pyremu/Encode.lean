import Pyremu.Lib.Bits
import Pyremu.Decode

/-!
# Encoding 32-bit instructions

The six base formats, written as the concatenation of their fields, and the
fields that `decode_fields` reads back from them.
-/

namespace Pyremu

def encodeR (func7 : BitVec 7) (rs2 rs1 : BitVec 5) (func3 : BitVec 3) (rd : BitVec 5)
    (opcode : BitVec 7) : BitVec 32 :=
  func7 ++ rs2 ++ rs1 ++ func3 ++ rd ++ opcode

def encodeI (imm : BitVec 12) (rs1 : BitVec 5) (func3 : BitVec 3) (rd : BitVec 5)
    (opcode : BitVec 7) : BitVec 32 :=
  imm ++ rs1 ++ func3 ++ rd ++ opcode

def encodeS (imm : BitVec 12) (rs2 rs1 : BitVec 5) (func3 : BitVec 3) (opcode : BitVec 7) :
    BitVec 32 :=
  imm.extractLsb' 5 7 ++ rs2 ++ rs1 ++ func3 ++ imm.extractLsb' 0 5 ++ opcode

def encodeB (imm : BitVec 13) (rs2 rs1 : BitVec 5) (func3 : BitVec 3) (opcode : BitVec 7) :
    BitVec 32 :=
  imm.extractLsb' 12 1 ++ imm.extractLsb' 5 6 ++ rs2 ++ rs1 ++ func3 ++ imm.extractLsb' 1 4 ++
    imm.extractLsb' 11 1 ++ opcode

def encodeU (imm : BitVec 20) (rd : BitVec 5) (opcode : BitVec 7) : BitVec 32 :=
  imm ++ rd ++ opcode

def encodeJ (imm : BitVec 21) (rd : BitVec 5) (opcode : BitVec 7) : BitVec 32 :=
  imm.extractLsb' 20 1 ++ imm.extractLsb' 1 10 ++ imm.extractLsb' 11 1 ++ imm.extractLsb' 12 8 ++
    rd ++ opcode

/-! ## Reading the fields back -/

theorem decode_encodeR (func7 : BitVec 7) (rs2 rs1 : BitVec 5) (func3 : BitVec 3) (rd : BitVec 5)
    (opcode : BitVec 7) :
    let f := decodeFields (encodeR func7 rs2 rs1 func3 rd opcode)
    f.opcode = opcode ∧ f.rd = rd ∧ f.func3 = func3 ∧ f.rs1 = rs1 ∧ f.rs2 = rs2 ∧
      f.func7 = func7 := by
  let i : BitVec (7 + 5 + 5 + 3 + 5 + 7) := func7 ++ rs2 ++ rs1 ++ func3 ++ rd ++ opcode
  change i.extractLsb' 0 7 = _ ∧ i.extractLsb' 7 5 = _ ∧ i.extractLsb' 12 3 = _ ∧
    i.extractLsb' 15 5 = _ ∧ i.extractLsb' 20 5 = _ ∧ i.extractLsb' 25 7 = _
  simp (disch := decide) only [i, BitVec.extractLsb'_append_eq_of_add_le,
    BitVec.extractLsb'_append_eq_of_le, Nat.reduceSub, BitVec.extractLsb'_eq_self, and_self]

theorem decode_encodeI (imm : BitVec 12) (rs1 : BitVec 5) (func3 : BitVec 3) (rd : BitVec 5)
    (opcode : BitVec 7) :
    let f := decodeFields (encodeI imm rs1 func3 rd opcode)
    f.opcode = opcode ∧ f.rd = rd ∧ f.func3 = func3 ∧ f.rs1 = rs1 ∧
      f.func7 = imm.extractLsb' 5 7 ∧ f.imm12Se = imm.signExtend 64 := by
  let i : BitVec (12 + 5 + 3 + 5 + 7) := imm ++ rs1 ++ func3 ++ rd ++ opcode
  change i.extractLsb' 0 7 = _ ∧ i.extractLsb' 7 5 = _ ∧ i.extractLsb' 12 3 = _ ∧
    i.extractLsb' 15 5 = _ ∧ i.extractLsb' 25 7 = _ ∧ (i.extractLsb' 20 12).signExtend 64 = _
  simp (disch := decide) only [i, BitVec.extractLsb'_append_eq_of_add_le,
    BitVec.extractLsb'_append_eq_of_le, Nat.reduceSub, BitVec.extractLsb'_eq_self, and_self]

theorem decode_encodeS (imm : BitVec 12) (rs2 rs1 : BitVec 5) (func3 : BitVec 3)
    (opcode : BitVec 7) :
    let f := decodeFields (encodeS imm rs2 rs1 func3 opcode)
    f.opcode = opcode ∧ f.func3 = func3 ∧ f.rs1 = rs1 ∧ f.rs2 = rs2 ∧
      f.immS = imm.signExtend 64 := by
  let i : BitVec (7 + 5 + 5 + 3 + 5 + 7) :=
    imm.extractLsb' 5 7 ++ rs2 ++ rs1 ++ func3 ++ imm.extractLsb' 0 5 ++ opcode
  have himm : imm.extractLsb' 5 7 ++ imm.extractLsb' 0 5 = imm :=
    @BitVec.extractLsb'_append_extractLsb' 7 5 imm
  change i.extractLsb' 0 7 = _ ∧ i.extractLsb' 12 3 = _ ∧ i.extractLsb' 15 5 = _ ∧
    i.extractLsb' 20 5 = _ ∧ (i.extractLsb' 25 7 ++ i.extractLsb' 7 5).signExtend 64 = _
  simp (disch := decide) only [i, BitVec.extractLsb'_append_eq_of_add_le,
    BitVec.extractLsb'_append_eq_of_le, Nat.reduceSub, BitVec.extractLsb'_eq_self, himm,
    and_self]

theorem decode_encodeU (imm : BitVec 20) (rd : BitVec 5) (opcode : BitVec 7) :
    let f := decodeFields (encodeU imm rd opcode)
    f.opcode = opcode ∧ f.rd = rd ∧ f.imm20Raw = imm := by
  let i : BitVec (20 + 5 + 7) := imm ++ rd ++ opcode
  change i.extractLsb' 0 7 = _ ∧ i.extractLsb' 7 5 = _ ∧ i.extractLsb' 12 20 = _
  simp (disch := decide) only [i, BitVec.extractLsb'_append_eq_of_add_le,
    BitVec.extractLsb'_append_eq_of_le, Nat.reduceSub, BitVec.extractLsb'_eq_self, and_self]

/-- The implicit low bit of a jump or branch offset. -/
theorem extractLsb'_zero_one {n : Nat} {x : BitVec n} (h : x.getLsbD 0 = false) :
    x.extractLsb' 0 1 = 0#1 := by
  apply BitVec.eq_of_getLsbD_eq
  intro i hi
  obtain rfl : i = 0 := by omega
  simp [h]

theorem decode_encodeB (imm : BitVec 13) (rs2 rs1 : BitVec 5) (func3 : BitVec 3)
    (opcode : BitVec 7) (h0 : imm.getLsbD 0 = false) :
    let f := decodeFields (encodeB imm rs2 rs1 func3 opcode)
    f.opcode = opcode ∧ f.func3 = func3 ∧ f.rs1 = rs1 ∧ f.rs2 = rs2 ∧
      f.immB = imm.signExtend 64 := by
  let i : BitVec (1 + 6 + 5 + 5 + 3 + 4 + 1 + 7) :=
    imm.extractLsb' 12 1 ++ imm.extractLsb' 5 6 ++ rs2 ++ rs1 ++ func3 ++ imm.extractLsb' 1 4 ++
      imm.extractLsb' 11 1 ++ opcode
  have himm : imm.extractLsb' 12 1 ++ imm.extractLsb' 11 1 ++ imm.extractLsb' 5 6 ++
      imm.extractLsb' 1 4 ++ 0#1 = imm := by
    rw [← extractLsb'_zero_one h0,
      BitVec.extractLsb'_append_extractLsb'_eq_extractLsb' (by rfl),
      BitVec.extractLsb'_append_extractLsb'_eq_extractLsb' (by rfl),
      BitVec.extractLsb'_append_extractLsb'_eq_extractLsb' (by rfl),
      BitVec.extractLsb'_append_extractLsb'_eq_extractLsb' (by rfl)]
    exact BitVec.extractLsb'_eq_self
  change i.extractLsb' 0 7 = _ ∧ i.extractLsb' 12 3 = _ ∧ i.extractLsb' 15 5 = _ ∧
    i.extractLsb' 20 5 = _ ∧ (i.extractLsb' 31 1 ++ i.extractLsb' 7 1 ++ i.extractLsb' 25 6 ++
      i.extractLsb' 8 4 ++ 0#1).signExtend 64 = _
  simp (disch := decide) only [i, BitVec.extractLsb'_append_eq_of_add_le,
    BitVec.extractLsb'_append_eq_of_le, Nat.reduceSub, BitVec.extractLsb'_eq_self, himm,
    and_self]

theorem decode_encodeJ (imm : BitVec 21) (rd : BitVec 5) (opcode : BitVec 7)
    (h0 : imm.getLsbD 0 = false) :
    let f := decodeFields (encodeJ imm rd opcode)
    f.opcode = opcode ∧ f.rd = rd ∧ f.immJ = imm.signExtend 64 := by
  let i : BitVec (1 + 10 + 1 + 8 + 5 + 7) :=
    imm.extractLsb' 20 1 ++ imm.extractLsb' 1 10 ++ imm.extractLsb' 11 1 ++
      imm.extractLsb' 12 8 ++ rd ++ opcode
  have himm : imm.extractLsb' 20 1 ++ imm.extractLsb' 12 8 ++ imm.extractLsb' 11 1 ++
      imm.extractLsb' 1 10 ++ 0#1 = imm := by
    rw [← extractLsb'_zero_one h0,
      BitVec.extractLsb'_append_extractLsb'_eq_extractLsb' (by rfl),
      BitVec.extractLsb'_append_extractLsb'_eq_extractLsb' (by rfl),
      BitVec.extractLsb'_append_extractLsb'_eq_extractLsb' (by rfl),
      BitVec.extractLsb'_append_extractLsb'_eq_extractLsb' (by rfl)]
    exact BitVec.extractLsb'_eq_self
  change i.extractLsb' 0 7 = _ ∧ i.extractLsb' 7 5 = _ ∧ (i.extractLsb' 31 1 ++
    i.extractLsb' 12 8 ++ i.extractLsb' 20 1 ++ i.extractLsb' 21 10 ++ 0#1).signExtend 64 = _
  simp (disch := decide) only [i, BitVec.extractLsb'_append_eq_of_add_le,
    BitVec.extractLsb'_append_eq_of_le, Nat.reduceSub, BitVec.extractLsb'_eq_self, himm,
    and_self]

end Pyremu
