import Pyremu.AluPython

/-!
# The two arithmetic units

Each operation is compared on its own: the integer of the one side is the
value of the word on the other. What is left are the encodings that one side
takes and the other refuses, and the comparison with a negative immediate.
-/

namespace Pyremu

namespace AluPython

open Unbounded

/-- A result of the native side as an integer. -/
def value (r : Option Word) : Option Int := r.map fun w => (w.toNat : Int)

@[simp] theorem value_some (w : Word) : value (some w) = some (w.toNat : Int) := rfl

@[simp] theorem value_none : value none = none := rfl

theorem some_value {x : Int} {w : Word} (h : x = w.toNat) : some x = value (some w) := by
  rw [h, value_some]

/-! ## Arithmetic of any width -/

section

variable {w : Nat} (a b : BitVec w)

theorem mask_add : mask w (a.toNat + b.toNat) = ((a + b).toNat : Int) := by
  rw [mask_eq, BitVec.ofInt_add, ofInt_toNat, ofInt_toNat]

theorem mask_sub : mask w (a.toNat - b.toNat) = ((a - b).toNat : Int) := by
  rw [mask_eq, ofInt_sub, ofInt_toNat, ofInt_toNat]

theorem mask_mul : mask w (a.toNat * b.toNat) = ((a * b).toNat : Int) := by
  rw [mask_eq, BitVec.ofInt_mul, ofInt_toNat, ofInt_toNat]

theorem mask_shl (s : Nat) : mask w (shl a.toNat s) = ((a <<< s).toNat : Int) := by
  rw [mask_eq, ofInt_shl, ofInt_toNat]

theorem mask_shr (s : Nat) : mask w (shr a.toNat s) = ((a >>> s).toNat : Int) := by
  rw [shr_toNat, mask_toNat]

theorem land_toNat : Int.land a.toNat b.toNat = ((a &&& b).toNat : Int) := by
  rw [BitVec.toNat_and]
  rfl

theorem lor_toNat : Int.lor a.toNat b.toNat = ((a ||| b).toNat : Int) := by
  rw [BitVec.toNat_or]
  rfl

theorem xor_toNat : Int.xor a.toNat b.toNat = ((a ^^^ b).toNat : Int) := by
  rw [BitVec.toNat_xor]
  rfl

theorem truncDiv_eq {x y : Int} (hy : y ≠ 0) : truncDiv x y = x.tdiv y := by
  rw [truncDiv, if_neg hy]
  cases x with
  | ofNat m =>
    cases y with
    | ofNat n =>
      have h1 : ¬ (m : Int) < 0 := by omega
      have h2 : ¬ (n : Int) < 0 := by omega
      simp [Int.tdiv, h1, h2]
    | negSucc n => simp [Int.tdiv]
  | negSucc m =>
    cases y with
    | ofNat n => simp [Int.tdiv]
    | negSucc n => simp [Int.tdiv]

theorem truncRem_eq {x y : Int} (hy : y ≠ 0) : truncRem x y = x.tmod y := by
  rw [truncRem, if_neg hy, truncDiv_eq hy, Int.tmod_def, Int.mul_comm]

theorem toInt_ne_zero {x : BitVec w} (hx : x ≠ 0) : x.toInt ≠ 0 := by
  intro h
  exact hx (BitVec.eq_of_toInt_eq (by rw [h, BitVec.ofNat_eq_ofNat, BitVec.toInt_zero]))

theorem mask_divS : mask w (truncDiv a.toInt b.toInt) = ((divS a b).toNat : Int) := by
  rw [mask_eq, divS]
  by_cases hb : b = 0
  · subst hb
    rw [truncDiv, if_pos (by simp), if_pos rfl, BitVec.ofInt_neg, BitVec.ofInt_ofNat,
      BitVec.neg_one_eq_allOnes]
  · rw [if_neg hb, truncDiv_eq (toInt_ne_zero hb)]
    congr 2
    apply BitVec.eq_of_toInt_eq
    rw [BitVec.toInt_ofInt, BitVec.toInt_sdiv]

theorem mask_remS : mask w (truncRem a.toInt b.toInt) = ((remS a b).toNat : Int) := by
  rw [mask_eq, remS]
  by_cases hb : b = 0
  · subst hb
    rw [truncRem, if_pos (by simp), if_pos rfl, BitVec.ofInt_toInt]
  · rw [if_neg hb, truncRem_eq (toInt_ne_zero hb), ← BitVec.toInt_srem, BitVec.ofInt_toInt]

theorem mask_divU : mask w (truncDiv a.toNat b.toNat) = ((divU a b).toNat : Int) := by
  rw [divU]
  by_cases hb : b = 0
  · subst hb
    rw [mask_eq, truncDiv, if_pos (by simp), if_pos rfl, BitVec.ofInt_neg, BitVec.ofInt_ofNat,
      BitVec.neg_one_eq_allOnes]
  · have hne : (b.toNat : Int) ≠ 0 := by
      intro h
      exact hb (BitVec.eq_of_toNat_eq (by simpa using h))
    rw [if_neg hb, truncDiv_eq hne, ← mask_toNat (a / b), BitVec.toNat_udiv]
    rfl

theorem mask_remU : mask w (truncRem a.toNat b.toNat) = ((remU a b).toNat : Int) := by
  rw [remU]
  by_cases hb : b = 0
  · subst hb
    rw [truncRem, if_pos (by simp), if_pos rfl, mask_toNat]
  · have hne : (b.toNat : Int) ≠ 0 := by
      intro h
      exact hb (BitVec.eq_of_toNat_eq (by simpa using h))
    rw [if_neg hb, truncRem_eq hne, ← mask_toNat (a % b), BitVec.toNat_umod]
    rfl

end

/-! ## Register operands -/

theorem mask64_toNat (v : Word) : mask64 v.toNat = v.toNat := mask_toNat v

theorem sint64_toNat (v : Word) : sint64 v.toNat = v.toInt := sint_toNat (by decide) v

theorem shamt_toNat {w : Nat} (v : BitVec w) (n : Nat) : (((v.toNat : Int)) % (n : Int)).toNat = v.toNat % n := by
  rw [← Int.natCast_emod, Int.toNat_natCast]

theorem ofBool_toNat (c : Bool) : ((if c then 1 else 0 : Int)) = ((ofBool c).toNat : Int) := by
  cases c <;> rfl

theorem mask64_mulHigh (a b : Int) : mask64 (sint64 (shr (a * b) 64)) = ((mulHigh a b).toNat : Int) := by
  rw [mask64, sint64, mask_eq, ofInt_sint (by decide), mulHigh, shr, Int.shiftRight_eq_div_pow]
  rfl

theorem bit_toNat (v : Word) (s : Nat) :
    bset v.toNat s = ((v ||| (1#64 <<< s)).toNat : Int) ∧
      bclr v.toNat s = ((v &&& ~~~(1#64 <<< s)).toNat : Int) ∧
      binv v.toNat s = ((v ^^^ (1#64 <<< s)).toNat : Int) ∧
      bext v.toNat s = (((v >>> s) &&& 1).toNat : Int) := by
  have hone : BitVec.ofInt 64 1 = 1#64 := rfl
  refine ⟨?_, ?_, ?_, ?_⟩
  · rw [bset, mask64, mask_eq, ofInt_lor, ofInt_shl, ofInt_toNat, hone]
  · rw [bclr, mask64, mask_eq, ofInt_land, ofInt_lnot, ofInt_shl, ofInt_toNat, hone]
  · rw [binv, mask64, mask_eq, ofInt_xor, ofInt_shl, ofInt_toNat, hone]
  · rw [bext, mask64_toNat, shr_toNat, ← land_toNat]
    rfl

theorem slt_toInt (v1 v2 : Word) :
    ((if v1.toInt < v2.toInt then 1 else 0 : Int)) = ((ofBool (v1.slt v2)).toNat : Int) := by
  rw [← ofBool_toNat, BitVec.slt]
  simp

theorem ult_toNat (v1 v2 : Word) :
    ((if (v1.toNat : Int) < v2.toNat then 1 else 0 : Int)) = ((ofBool (v1.ult v2)).toNat : Int) := by
  rw [← ofBool_toNat, BitVec.ult]
  simp

theorem mask_choice (c : Prop) [Decidable c] (v1 v2 : Word) :
    mask64 (if c then v1.toInt else v2.toInt) = ((if c then v1 else v2 : Word).toNat : Int) := by
  split <;> rw [mask64, mask_eq, BitVec.ofInt_toInt]

theorem mask64_sra (v : Word) (s : Nat) :
    mask64 (sint64 (shr v.toInt s)) = ((v.sshiftRight s).toNat : Int) := by
  rw [mask64, sint64, mask_eq, ofInt_sint (by decide), ofInt_shr_toInt]

/-- The values of `funct7` that name an operation of the register ALU. -/
def aluFunct7 (funct3 : BitVec 3) : List (BitVec 7) :=
  match funct3 with
  | 0b000 => [0x00, 0x01, 0x20]
  | 0b001 => [0x00, 0x01, 0x14, 0x24, 0x30, 0x34]
  | 0b010 => [0x00, 0x01, 0x10]
  | 0b011 => [0x00, 0x01]
  | 0b100 => [0x00, 0x01, 0x05, 0x10, 0x20]
  | 0b101 => [0x00, 0x01, 0x05, 0x20, 0x24, 0x30]
  | 0b110 => [0x00, 0x01, 0x05, 0x10, 0x20]
  | 0b111 => [0x00, 0x01, 0x05, 0x20]

variable (v1 v2 : Word)

theorem execAluOp_other {funct3 : BitVec 3} {funct7 : BitVec 7} (h : funct7 ∉ aluFunct7 funct3) :
    none = value (execAluOp funct3 funct7 v1 v2) := by
  unfold execAluOp
  split <;> first | rfl | exact absurd (by decide) h

theorem aluPy000_agrees (funct7 : BitVec 7) :
    aluPy000 funct7 v1.toNat v2.toNat = value (execAluOp 0b000 funct7 v1 v2) := by
  unfold aluPy000
  split
  · exact some_value (mask_add v1 v2)
  · exact some_value (mask_mul v1 v2)
  · exact some_value (mask_sub v1 v2)
  · exact execAluOp_other v1 v2 (by simp_all [aluFunct7])

theorem aluPy001_agrees (funct7 : BitVec 7) :
    aluPy001 funct7 v1.toNat v2.toNat = value (execAluOp 0b001 funct7 v1 v2) := by
  have hs := shamt_toNat v2 64
  obtain ⟨hset, hclr, hinv, -⟩ := bit_toNat v1 (v2.toNat % 64)
  unfold aluPy001
  simp only [Nat.cast_ofNat] at hs
  rw [hs]
  split
  · exact some_value (mask_shl v1 _)
  · rw [sint64_toNat, sint64_toNat]
    exact some_value (mask64_mulHigh _ _)
  · exact some_value hset
  · exact some_value hclr
  · exact some_value (rol_toNat v1 _)
  · exact some_value hinv
  · exact execAluOp_other v1 v2 (by simp_all [aluFunct7])

theorem aluPy010_agrees (funct7 : BitVec 7) :
    aluPy010 funct7 v1.toNat v2.toNat = value (execAluOp 0b010 funct7 v1 v2) := by
  unfold aluPy010
  split
  · rw [sint64_toNat, sint64_toNat]
    exact some_value (slt_toInt v1 v2)
  · rw [sint64_toNat, mask64_toNat]
    exact some_value (mask64_mulHigh _ _)
  · exact some_value (by
      rw [mask64, mask_eq, BitVec.ofInt_add, ofInt_shl, ofInt_toNat, ofInt_toNat])
  · exact execAluOp_other v1 v2 (by simp_all [aluFunct7])

theorem aluPy011_agrees (funct7 : BitVec 7) :
    aluPy011 funct7 v1.toNat v2.toNat = value (execAluOp 0b011 funct7 v1 v2) := by
  unfold aluPy011
  simp only [mask64_toNat]
  split
  · exact some_value (ult_toNat v1 v2)
  · have h := mask64_mulHigh v1.toNat v2.toNat
    rw [mask64, sint64, mask_eq, ofInt_sint (by decide), ← mask_eq] at h
    exact some_value h
  · exact execAluOp_other v1 v2 (by simp_all [aluFunct7])

theorem aluPy100_agrees (funct7 : BitVec 7) :
    aluPy100 funct7 v1.toNat v2.toNat = value (execAluOp 0b100 funct7 v1 v2) := by
  unfold aluPy100
  simp only [sint64_toNat]
  split
  · exact some_value (xor_toNat v1 v2)
  · exact some_value (mask_divS v1 v2)
  · have h : min v1.toInt v2.toInt = if v1.slt v2 then v1.toInt else v2.toInt := by
      rw [BitVec.slt]
      simp only [decide_eq_true_eq]
      split <;> omega
    rw [h]
    exact some_value (mask_choice _ v1 v2)
  · exact some_value (by
      rw [mask64, mask_eq, BitVec.ofInt_add, ofInt_shl, ofInt_toNat, ofInt_toNat])
  · exact some_value (by rw [mask64, mask_eq, ofInt_lnot, ofInt_xor, ofInt_toNat, ofInt_toNat])
  · exact execAluOp_other v1 v2 (by simp_all [aluFunct7])

theorem aluPy101_agrees (funct7 : BitVec 7) :
    aluPy101 funct7 v1.toNat v2.toNat = value (execAluOp 0b101 funct7 v1 v2) := by
  have hs := shamt_toNat v2 64
  obtain ⟨-, -, -, hext⟩ := bit_toNat v1 (v2.toNat % 64)
  unfold aluPy101
  simp only [Nat.cast_ofNat] at hs
  simp only [hs, mask64_toNat, sint64_toNat]
  split
  · exact some_value (mask_shr v1 _)
  · exact some_value (mask_divU v1 v2)
  · have h : min (v1.toNat : Int) v2.toNat = (if v1.ult v2 then v1 else v2 : Word).toNat := by
      rw [BitVec.ult]
      simp only [decide_eq_true_eq]
      split <;> omega
    exact some_value h
  · exact some_value (mask64_sra v1 _)
  · exact some_value hext
  · exact some_value (ror_toNat v1 _)
  · exact execAluOp_other v1 v2 (by simp_all [aluFunct7])

theorem aluPy110_agrees (funct7 : BitVec 7) :
    aluPy110 funct7 v1.toNat v2.toNat = value (execAluOp 0b110 funct7 v1 v2) := by
  unfold aluPy110
  simp only [sint64_toNat]
  split
  · exact some_value (lor_toNat v1 v2)
  · exact some_value (mask_remS v1 v2)
  · have h : max v1.toInt v2.toInt = if v2.slt v1 then v1.toInt else v2.toInt := by
      rw [BitVec.slt]
      simp only [decide_eq_true_eq]
      split <;> omega
    rw [h]
    exact some_value (mask_choice _ v1 v2)
  · exact some_value (by
      rw [mask64, mask_eq, BitVec.ofInt_add, ofInt_shl, ofInt_toNat, ofInt_toNat])
  · exact some_value (by rw [mask64, mask_eq, ofInt_lor, ofInt_lnot, ofInt_toNat, ofInt_toNat])
  · exact execAluOp_other v1 v2 (by simp_all [aluFunct7])

theorem aluPy111_agrees (funct7 : BitVec 7) :
    aluPy111 funct7 v1.toNat v2.toNat = value (execAluOp 0b111 funct7 v1 v2) := by
  unfold aluPy111
  simp only [mask64_toNat]
  split
  · exact some_value (land_toNat v1 v2)
  · exact some_value (mask_remU v1 v2)
  · have h : max (v1.toNat : Int) v2.toNat = (if v2.ult v1 then v1 else v2 : Word).toNat := by
      rw [BitVec.ult]
      simp only [decide_eq_true_eq]
      split <;> omega
    exact some_value h
  · exact some_value (by rw [mask64, mask_eq, ofInt_land, ofInt_lnot, ofInt_toNat, ofInt_toNat])
  · exact execAluOp_other v1 v2 (by simp_all [aluFunct7])

/-- The eight values of `funct3`. -/
theorem funct3_cases (funct3 : BitVec 3) : funct3 = 0b000 ∨ funct3 = 0b001 ∨ funct3 = 0b010 ∨
    funct3 = 0b011 ∨ funct3 = 0b100 ∨ funct3 = 0b101 ∨ funct3 = 0b110 ∨ funct3 = 0b111 := by
  revert funct3
  decide

theorem aluPyOps_agrees (funct3 : BitVec 3) (funct7 : BitVec 7) :
    aluPyOps funct3 funct7 v1.toNat v2.toNat = value (execAluOp funct3 funct7 v1 v2) := by
  rcases funct3_cases funct3 with rfl | rfl | rfl | rfl | rfl | rfl | rfl | rfl
  · exact aluPy000_agrees v1 v2 funct7
  · exact aluPy001_agrees v1 v2 funct7
  · exact aluPy010_agrees v1 v2 funct7
  · exact aluPy011_agrees v1 v2 funct7
  · exact aluPy100_agrees v1 v2 funct7
  · exact aluPy101_agrees v1 v2 funct7
  · exact aluPy110_agrees v1 v2 funct7
  · exact aluPy111_agrees v1 v2 funct7

/-! ## An immediate operand -/

theorem countOnes_toNat {w : Nat} (x : BitVec w) (hw : w < 2 ^ 64) :
    ((BitVec.ofNat 64 (countOnes x)).toNat : Int) = bitCount (x.toNat : Int) := by
  have hle : countOnes x ≤ w := by
    have h := List.countP_le_length (p := x.getLsbD) (l := List.range w)
    rwa [List.length_range] at h
  rw [bitCount_toNat, BitVec.toNat_ofNat, Nat.mod_eq_of_lt (by omega), countOnes]

theorem ctz_toNat {w : Nat} (x : BitVec w) :
    (if (x.toNat : Int) ≠ 0 then (bitLength (Int.land x.toNat (-x.toNat)) : Int) - 1 else w) =
      x.ctz.toNat := by
  by_cases hx : x = 0#w
  · subst hx
    rw [if_neg (by simp), ctz_zero]
  · have hne : (x.toNat : Int) ≠ 0 := by
      intro h
      exact hx (BitVec.eq_of_toNat_eq (by simpa using h))
    rw [if_pos hne, bitLength_land_neg hx]
    omega

theorem zbbUnary_agrees (v : Word) (shamt : Nat) :
    zbbUnary v.toNat shamt = value (zbbUnaryImm v shamt) := by
  have hlen := bitLength_toNat (by decide) v
  unfold zbbUnary
  simp only [mask64_toNat]
  split
  · exact some_value (by omega)
  · exact some_value (ctz_toNat v)
  · exact some_value (countOnes_toNat v (by decide)).symm
  · exact some_value (sext_natCast (by decide) v.toNat)
  · exact some_value (sext_natCast (by decide) v.toNat)
  · unfold zbbUnaryImm
    split <;> simp_all

theorem byte_toNat (v : Word) (i : Nat) :
    Int.land (shr v.toNat (i * 8)) 0xFF = (((v >>> (i * 8)) &&& 0xFF).toNat : Int) := by
  rw [shr_toNat, ← land_toNat]
  rfl

theorem foldl_toNat {f : Int → Nat → Int} {g : Word → Nat → Word}
    (h : ∀ out i, f (out.toNat : Int) i = ((g out i).toNat : Int)) (l : List Nat) {z : Int}
    {out : Word} (hz : z = out.toNat) : l.foldl f z = ((l.foldl g out).toNat : Int) := by
  induction l generalizing z out with
  | nil => exact hz
  | cons i l ih =>
    rw [List.foldl_cons, List.foldl_cons, hz]
    exact ih (h out i)

/-- A byte at `s` does not reach past the word. -/
theorem shl_byte (b : Word) (s : Nat) (hb : b.toNat < 256) (hs : s ≤ 56) :
    shl b.toNat s = ((b <<< s).toNat : Int) := by
  have hlt : b.toNat * 2 ^ s < 2 ^ 64 := by
    calc b.toNat * 2 ^ s < 256 * 2 ^ s := Nat.mul_lt_mul_of_pos_right hb (Nat.two_pow_pos s)
      _ ≤ 256 * 2 ^ 56 := Nat.mul_le_mul_left _ (Nat.pow_le_pow_right (by decide) hs)
      _ = 2 ^ 64 := by decide
  rw [BitVec.toNat_shiftLeft, Nat.shiftLeft_eq, Nat.mod_eq_of_lt hlt, shl]
  push_cast
  rfl

theorem byte_lt (v : Word) (i : Nat) : ((v >>> (i * 8)) &&& 0xFF).toNat < 256 := by
  rw [BitVec.toNat_and]
  exact Nat.lt_of_le_of_lt Nat.and_le_right (by decide)

/-- Past the eighth byte there is nothing. -/
theorem byte_past (v : Word) {i : Nat} (hi : 8 ≤ i) : (v >>> (i * 8)) &&& 0xFF = 0 := by
  rw [BitVec.ushiftRight_eq_zero (by omega)]
  exact BitVec.zero_and

theorem zbbOrcB_agrees (v : Word) : zbbOrcB v.toNat = ((orcB v).toNat : Int) := by
  rw [zbbOrcB, orcB]
  refine foldl_toNat ?_ _ rfl
  intro out i
  rw [byte_toNat]
  by_cases hz : (v >>> (i * 8)) &&& 0xFF = 0
  · rw [hz, if_neg (by simp), if_neg (by simp)]
  · have hi : i < 8 := by
      by_contra h
      exact hz (byte_past v (by omega))
    have hne : ((((v >>> (i * 8)) &&& 0xFF).toNat : Int)) ≠ 0 := by
      intro h
      exact hz (BitVec.eq_of_toNat_eq (by simpa using h))
    have hshl := shl_byte 0xFF#64 (i * 8) (by decide) (by omega)
    rw [if_pos hne, if_pos hz, ← lor_toNat, ← hshl]
    rfl

theorem zbbRev8_agrees (v : Word) : zbbRev8 v.toNat = ((swapBytes v).toNat : Int) := by
  rw [zbbRev8, swapBytes]
  refine foldl_toNat ?_ _ rfl
  intro out i
  rw [mask64_toNat, byte_toNat, shl_byte _ _ (byte_lt v i) (by omega), lor_toNat]

theorem opImmPy001_agrees (funct6 : BitVec 6) (funct7 : BitVec 7) (v1 imm : Word)
    (h6 : funct7.extractLsb' 1 6 = funct6) :
    opImmPy001 funct6 v1.toNat imm.toNat (imm.toNat % 64) =
      value (execOpImm 0b001 funct7 v1 imm) := by
  obtain ⟨hset, hclr, hinv, -⟩ := bit_toNat v1 (imm.toNat % 64)
  unfold opImmPy001 execOpImm
  simp only [h6]
  split
  · exact some_value (mask_shl v1 _)
  · exact some_value hset
  · exact some_value hclr
  · exact zbbUnary_agrees v1 _
  · exact some_value hinv
  · split <;> simp_all

theorem toNat_eq_iff (imm : Word) (n : Nat) (hn : n < 2 ^ 64) :
    (imm.toNat : Int) = n ↔ imm = BitVec.ofNat 64 n := by
  constructor
  · intro h
    apply BitVec.eq_of_toNat_eq
    rw [BitVec.toNat_ofNat, Nat.mod_eq_of_lt hn]
    exact_mod_cast h
  · rintro rfl
    rw [BitVec.toNat_ofNat, Nat.mod_eq_of_lt hn]

theorem opImmPy101_agrees (funct6 : BitVec 6) (funct7 : BitVec 7) (v1 imm : Word)
    (h6 : funct7.extractLsb' 1 6 = funct6) :
    opImmPy101 funct6 v1.toNat imm.toNat (imm.toNat % 64) =
      value (execOpImm 0b101 funct7 v1 imm) := by
  obtain ⟨-, -, -, hext⟩ := bit_toNat v1 (imm.toNat % 64)
  have horc := toNat_eq_iff imm 0x287 (by decide)
  have hrev := toNat_eq_iff imm 0x6B8 (by decide)
  unfold opImmPy101 execOpImm
  simp only [h6, mask64_toNat, sint64_toNat]
  split
  · exact some_value (mask_shr v1 _)
  · by_cases h : imm = 0x287#64
    · have hval : (imm.toNat : Int) = 0x287 := horc.mpr h
      rw [if_neg (not_not.mpr hval)]
      simp only [h]
      exact some_value (zbbOrcB_agrees v1)
    · have hval : (imm.toNat : Int) ≠ 0x287 := fun hc => h (horc.mp hc)
      rw [if_pos hval]
      simp [h]
  · exact some_value (mask64_sra v1 _)
  · exact some_value hext
  · exact some_value (ror_toNat v1 _)
  · by_cases h : imm = 0x6B8#64
    · have hval : (imm.toNat : Int) = 0x6B8 := hrev.mpr h
      rw [if_neg (not_not.mpr hval)]
      simp only [h]
      exact some_value (zbbRev8_agrees v1)
    · have hval : (imm.toNat : Int) ≠ 0x6B8 := fun hc => h (hrev.mp hc)
      rw [if_pos hval]
      simp [h]
  · split <;> simp_all

/-- A negative immediate counts as larger than any register. -/
theorem opImmPy010_agrees_iff (funct6 : BitVec 6) (funct7 : BitVec 7) (v1 imm : Word) (shamt : Nat) :
    opImmPy010 funct6 v1.toNat imm.toNat shamt = value (execOpImm 0b010 funct7 v1 imm) ↔
      (imm.toInt < 0 → v1.toInt < imm.toInt) := by
  have hlo := BitVec.toInt_lt (x := v1)
  have hcond := BitVec.toInt_eq_toNat_cond imm
  have hbound := imm.isLt
  have hnat : execOpImm 0b010 funct7 v1 imm = some (ofBool (v1.slt imm)) := rfl
  rw [hnat, opImmPy010, sint64_toNat, value_some, ← slt_toInt, Option.some.injEq]
  by_cases hneg : imm.toInt < 0
  · have hbig : v1.toInt < (imm.toNat : Int) := by
      split at hcond <;> omega
    rw [if_pos hbig]
    by_cases hlt : v1.toInt < imm.toInt
    · simp [hlt]
    · simp [hlt, hneg]
  · have heq : (imm.toNat : Int) = imm.toInt := by
      split at hcond <;> omega
    rw [heq]
    simp [hneg]

theorem opImmPy_agrees_iff (funct3 : BitVec 3) (funct7 : BitVec 7) (v1 imm : Word) :
    opImmPy funct3 funct7 v1.toNat imm.toNat = value (execOpImm funct3 funct7 v1 imm) ↔
      (funct3 = 0b010 → imm.toInt < 0 → v1.toInt < imm.toInt) := by
  have hs : ((imm.toNat : Int) % 64).toNat = imm.toNat % 64 := shamt_toNat imm 64
  rw [opImmPy, hs]
  rcases funct3_cases funct3 with rfl | rfl | rfl | rfl | rfl | rfl | rfl | rfl
  · exact iff_of_true (some_value (mask_add v1 imm)) (by simp)
  · exact iff_of_true (opImmPy001_agrees _ funct7 v1 imm rfl) (by simp)
  · exact (opImmPy010_agrees_iff (funct7.extractLsb' 1 6) funct7 v1 imm (imm.toNat % 64)).trans
      (by simp)
  · refine iff_of_true ?_ (by simp)
    have h : opImmPy011 (funct7.extractLsb' 1 6) v1.toNat imm.toNat (imm.toNat % 64) =
        some (if (v1.toNat : Int) < imm.toNat then 1 else 0) := by
      rw [opImmPy011, mask64_toNat, mask64_toNat]
    exact h.trans (some_value (ult_toNat v1 imm))
  · exact iff_of_true (some_value (xor_toNat v1 imm)) (by simp)
  · exact iff_of_true (opImmPy101_agrees _ funct7 v1 imm rfl) (by simp)
  · exact iff_of_true (some_value (lor_toNat v1 imm)) (by simp)
  · exact iff_of_true (some_value (land_toNat v1 imm)) (by simp)

/-! ## Words of 32 bits -/

theorem mask32_toNat (v : Word) : mask32 v.toNat = ((v.setWidth 32).toNat : Int) := by
  rw [mask32, mask_eq, BitVec.ofInt_natCast, BitVec.ofNat_toNat]

theorem uw_toNat (v : Word) : mask32 v.toNat = ((v &&& 0xFFFFFFFF).toNat : Int) := by
  rw [mask32, mask, BitVec.toNat_and]
  have h : v.toNat &&& (0xFFFFFFFF : Word).toNat = v.toNat % 2 ^ 32 := Nat.and_two_pow_sub_one_eq_mod _ 32
  rw [h]
  push_cast
  rfl

theorem sext32_toNat (x : BitVec 32) : sext32 x.toNat = ((x.signExtend 64).toNat : Int) := by
  rw [sext32, sext_natCast (by decide), BitVec.ofNat_toNat, BitVec.setWidth_eq]

theorem sint64_sext32 (x : BitVec 32) : sint64 (sext32 x.toNat) = x.toInt := by
  rw [sext32_toNat, sint64_toNat, BitVec.toInt_signExtend_of_le (by decide)]

theorem sext32_mask {z : Int} {x : BitVec 32} (h : mask32 z = x.toNat) :
    some (sext32 (mask32 z)) = value (some (x.signExtend 64)) := by
  rw [h, sext32_toNat, value_some]

/-- The right shift of the sign-extended word, cut down again. -/
theorem mask32_sra (x : BitVec 32) {s : Nat} (hs : s < 32) :
    mask32 (sint64 (shr (sext32 x.toNat) s)) = ((x.sshiftRight s).toNat : Int) := by
  have hcut : ∀ z : Word, BitVec.ofInt 32 z.toInt = z.setWidth 32 := by
    intro z
    rw [← BitVec.signExtend_eq_setWidth_of_le z (by decide)]
    rfl
  rw [sext32_toNat, shr_toNat, sint64_toNat, mask32, mask_eq, hcut]
  congr 2
  apply BitVec.eq_of_getLsbD_eq
  intro i hi
  rw [BitVec.getLsbD_setWidth, BitVec.getLsbD_ushiftRight, BitVec.getLsbD_signExtend,
    BitVec.getLsbD_sshiftRight]
  have h64 : s + i < 64 := by omega
  by_cases h : s + i < 32
  · simp [hi, h64, h]
  · simp [hi, h64, h]

/-- Encodings that the Python side takes and the native side refuses. -/
def op32Extra (funct3 : BitVec 3) (funct7 : BitVec 7) : Bool :=
  match funct3, funct7 with
  | 0b001, 0x01 => true
  | 0b010, 0x00 => true
  | 0b010, 0x01 => true
  | 0b011, 0x00 => true
  | 0b011, 0x01 => true
  | 0b100, 0x00 => true
  | 0b110, 0x00 => true
  | 0b111, 0x00 => true
  | _, _ => false

/-- The values of `funct7` that the Python side takes, the `uw` forms apart. -/
def op32Funct7 (funct3 : BitVec 3) : List (BitVec 7) :=
  match funct3 with
  | 0b000 => [0x00, 0x01, 0x20]
  | 0b001 => [0x00, 0x01, 0x30]
  | 0b101 => [0x00, 0x01, 0x20, 0x30]
  | _ => [0x00, 0x01]

/-! Without the `uw` forms, one value of `funct3` at a time. -/

variable {funct7 : BitVec 7} (v1 v2 : Word)

theorem execOp32_other {funct3 : BitVec 3} (hu : op32UwShift funct3 funct7 = none)
    (h : funct7 ∉ op32Funct7 funct3) : none = value (execOp32 funct3 funct7 v1 v2) := by
  unfold execOp32
  split <;> first | rfl | exact absurd (by decide) h | cases hu

theorem op32Extra_other {funct3 : BitVec 3} (h : funct7 ∉ op32Funct7 funct3) :
    op32Extra funct3 funct7 = false := by
  unfold op32Extra
  split <;> first | rfl | exact absurd (by decide) h

/-- A row that neither side has. -/
theorem op32_other {funct3 : BitVec 3} (hu : op32UwShift funct3 funct7 = none)
    (h : funct7 ∉ op32Funct7 funct3) :
    none = value (execOp32 funct3 funct7 v1 v2) ↔ op32Extra funct3 funct7 = false :=
  iff_of_true (execOp32_other v1 v2 hu h) (op32Extra_other h)

/-- A row that the native side lacks. -/
theorem op32_extra {funct3 : BitVec 3} {x : Int} (h : op32Extra funct3 funct7 = true) :
    some x = value (execOp32 funct3 funct7 v1 v2) ↔ op32Extra funct3 funct7 = false := by
  have hnone : execOp32 funct3 funct7 v1 v2 = none := by
    unfold op32Extra at h
    split at h <;> first | rfl | cases h
  rw [hnone, h]
  exact iff_of_false (Option.some_ne_none x) Bool.noConfusion

theorem op32Py000_agrees (hu : op32UwShift 0b000 funct7 = none) :
    op32Py000 funct7 (v1.setWidth 32).toNat (v2.setWidth 32).toNat =
      value (execOp32 0b000 funct7 v1 v2) ↔ op32Extra 0b000 funct7 = false := by
  unfold op32Py000
  split
  · exact iff_of_true (sext32_mask (mask_add _ _)) rfl
  · exact iff_of_true (sext32_mask (mask_mul _ _)) rfl
  · exact iff_of_true (sext32_mask (mask_sub _ _)) rfl
  · exact op32_other v1 v2 hu (by simp_all [op32Funct7])

theorem op32Py001_agrees (hu : op32UwShift 0b001 funct7 = none) :
    op32Py001 funct7 (v1.setWidth 32).toNat (v2.setWidth 32).toNat =
      value (execOp32 0b001 funct7 v1 v2) ↔ op32Extra 0b001 funct7 = false := by
  have hs : (((v2.setWidth 32).toNat : Int) % 32).toNat = (v2.setWidth 32).toNat % 32 :=
    shamt_toNat (v2.setWidth 32) 32
  unfold op32Py001
  rw [hs]
  split
  · exact iff_of_true (sext32_mask (mask_shl _ _)) rfl
  · exact op32_extra v1 v2 rfl
  · exact iff_of_true (some_value (by rw [rol_toNat, sext32_toNat])) rfl
  · exact op32_other v1 v2 hu (by simp_all [op32Funct7])

theorem op32Py010_agrees (hu : op32UwShift 0b010 funct7 = none) :
    op32Py010 funct7 (v1.setWidth 32).toNat (v2.setWidth 32).toNat =
      value (execOp32 0b010 funct7 v1 v2) ↔ op32Extra 0b010 funct7 = false := by
  unfold op32Py010
  split
  · exact op32_extra v1 v2 rfl
  · exact op32_extra v1 v2 rfl
  · exact op32_other v1 v2 hu (by simp_all [op32Funct7])

theorem op32Py011_agrees (hu : op32UwShift 0b011 funct7 = none) :
    op32Py011 funct7 (v1.setWidth 32).toNat (v2.setWidth 32).toNat =
      value (execOp32 0b011 funct7 v1 v2) ↔ op32Extra 0b011 funct7 = false := by
  unfold op32Py011
  split
  · exact op32_extra v1 v2 rfl
  · exact op32_extra v1 v2 rfl
  · exact op32_other v1 v2 hu (by simp_all [op32Funct7])

theorem op32Py100_agrees (hu : op32UwShift 0b100 funct7 = none) :
    op32Py100 funct7 (v1.setWidth 32).toNat (v2.setWidth 32).toNat =
      value (execOp32 0b100 funct7 v1 v2) ↔ op32Extra 0b100 funct7 = false := by
  unfold op32Py100
  split
  · exact op32_extra v1 v2 rfl
  · rw [sint64_sext32, sint64_sext32]
    exact iff_of_true (sext32_mask (mask_divS _ _)) rfl
  · exact op32_other v1 v2 hu (by simp_all [op32Funct7])

theorem op32Py101_agrees (hu : op32UwShift 0b101 funct7 = none) :
    op32Py101 funct7 (v1.setWidth 32).toNat (v2.setWidth 32).toNat =
      value (execOp32 0b101 funct7 v1 v2) ↔ op32Extra 0b101 funct7 = false := by
  have hs : (((v2.setWidth 32).toNat : Int) % 32).toNat = (v2.setWidth 32).toNat % 32 :=
    shamt_toNat (v2.setWidth 32) 32
  unfold op32Py101
  rw [hs]
  split
  · exact iff_of_true (sext32_mask (mask_shr _ _)) rfl
  · exact iff_of_true (sext32_mask (mask_divU _ _)) rfl
  · exact iff_of_true (sext32_mask (mask32_sra _ (Nat.mod_lt _ (by decide)))) rfl
  · exact iff_of_true (some_value (by rw [ror_toNat, sext32_toNat])) rfl
  · exact op32_other v1 v2 hu (by simp_all [op32Funct7])

theorem op32Py110_agrees (hu : op32UwShift 0b110 funct7 = none) :
    op32Py110 funct7 (v1.setWidth 32).toNat (v2.setWidth 32).toNat =
      value (execOp32 0b110 funct7 v1 v2) ↔ op32Extra 0b110 funct7 = false := by
  unfold op32Py110
  split
  · exact op32_extra v1 v2 rfl
  · rw [sint64_sext32, sint64_sext32]
    exact iff_of_true (sext32_mask (mask_remS _ _)) rfl
  · exact op32_other v1 v2 hu (by simp_all [op32Funct7])

theorem op32Py111_agrees (hu : op32UwShift 0b111 funct7 = none) :
    op32Py111 funct7 (v1.setWidth 32).toNat (v2.setWidth 32).toNat =
      value (execOp32 0b111 funct7 v1 v2) ↔ op32Extra 0b111 funct7 = false := by
  unfold op32Py111
  split
  · exact op32_extra v1 v2 rfl
  · exact iff_of_true (sext32_mask (mask_remU _ _)) rfl
  · exact op32_other v1 v2 hu (by simp_all [op32Funct7])

theorem op32Py_agrees_iff (funct3 : BitVec 3) (funct7 : BitVec 7) (v1 v2 : Word) :
    op32Py funct3 funct7 v1.toNat v2.toNat = value (execOp32 funct3 funct7 v1 v2) ↔
      op32Extra funct3 funct7 = false := by
  unfold op32Py
  rw [mask32_toNat, mask32_toNat]
  cases hu : op32UwShift funct3 funct7 with
  | none =>
    rcases funct3_cases funct3 with rfl | rfl | rfl | rfl | rfl | rfl | rfl | rfl
    · exact op32Py000_agrees v1 v2 hu
    · exact op32Py001_agrees v1 v2 hu
    · exact op32Py010_agrees v1 v2 hu
    · exact op32Py011_agrees v1 v2 hu
    · exact op32Py100_agrees v1 v2 hu
    · exact op32Py101_agrees v1 v2 hu
    · exact op32Py110_agrees v1 v2 hu
    · exact op32Py111_agrees v1 v2 hu
  | some shift =>
    have hsum : mask64 (shl (v1.setWidth 32).toNat shift + v2.toNat) =
        ((((v1 &&& 0xFFFFFFFF) <<< shift) + v2).toNat : Int) := by
      rw [← mask32_toNat, uw_toNat, mask64, mask_eq, BitVec.ofInt_add, ofInt_shl, ofInt_toNat,
        ofInt_toNat]
    simp only [hsum]
    unfold op32UwShift at hu
    split at hu
    · obtain rfl := Option.some.inj hu
      refine iff_of_true ?_ rfl
      rw [BitVec.shiftLeft_zero]
      rfl
    · obtain rfl := Option.some.inj hu
      exact iff_of_true rfl rfl
    · obtain rfl := Option.some.inj hu
      exact iff_of_true rfl rfl
    · obtain rfl := Option.some.inj hu
      exact iff_of_true rfl rfl
    · exact absurd hu (by simp)

/-! ## Words of 32 bits and an immediate -/

theorem addiw_toNat (v imm : Word) :
    mask32 (v.toNat + imm.toNat) = ((v.setWidth 32 + imm.setWidth 32).toNat : Int) := by
  rw [mask32, mask_eq, BitVec.ofInt_add, BitVec.ofInt_natCast, BitVec.ofInt_natCast,
    BitVec.ofNat_toNat, BitVec.ofNat_toNat]

/-- A count fits the word, and its sign is zero. -/
theorem count_signExtend {n : Nat} (hn : n ≤ 32) :
    (((BitVec.ofNat 32 n).signExtend 64).toNat : Int) = n := by
  have hmod : n % 2 ^ 32 = n := Nat.mod_eq_of_lt (by omega)
  have hint : (BitVec.ofNat 32 n).toInt = n := by
    rw [BitVec.toInt_eq_toNat_cond, BitVec.toNat_ofNat, hmod, if_pos (by omega)]
  have h : (BitVec.ofNat 32 n).signExtend 64 = BitVec.ofInt 64 (BitVec.ofNat 32 n).toInt := rfl
  rw [h, hint, BitVec.ofInt_natCast, BitVec.toNat_ofNat, Nat.mod_eq_of_lt (by omega)]

theorem signExtend_count {x : BitVec 32} (hx : x.toNat ≤ 32) :
    ((x.signExtend 64).toNat : Int) = x.toNat := by
  have h := count_signExtend hx
  rwa [BitVec.ofNat_toNat, BitVec.setWidth_eq] at h

theorem clz_le_width (x : BitVec 32) : x.clz.toNat ≤ 32 := by
  have h := bitLength_toNat (by decide) x
  omega

theorem ctz_le_width (x : BitVec 32) : x.ctz.toNat ≤ 32 := by
  rw [BitVec.ctz_eq_reverse_clz]
  exact clz_le_width _

theorem execOpImm32_unary (v imm : Word) : execOpImm32 0b001 0x30 v imm =
    if imm.toNat % 32 = 0 then some ((v.setWidth 32).clz.signExtend 64)
    else if imm.toNat % 32 = 1 then some ((v.setWidth 32).ctz.signExtend 64)
    else if imm.toNat % 32 = 2 then
      some ((BitVec.ofNat 32 (countOnes (v.setWidth 32))).signExtend 64)
    else none := by
  unfold execOpImm32
  rw [if_neg (by decide)]
  rfl

/-- The native unary word operations take the low 5 bits, the Python ones all 6. -/
theorem zbbUnary32_agrees_iff (v imm : Word) :
    zbbUnary32 v.toNat (imm.toNat % 64) = value (execOpImm32 0b001 0x30 v imm) ↔
      ¬ (32 ≤ imm.toNat % 64 ∧ imm.toNat % 64 < 35) := by
  have hlen := bitLength_toNat (by decide) (v.setWidth 32)
  have hclz := signExtend_count (clz_le_width (v.setWidth 32))
  have hctz := signExtend_count (ctz_le_width (v.setWidth 32))
  have hcount : countOnes (v.setWidth 32) ≤ 32 := by
    have h := List.countP_le_length (p := (v.setWidth 32).getLsbD) (l := List.range 32)
    rwa [List.length_range] at h
  rw [execOpImm32_unary]
  have hlow : imm.toNat % 32 = imm.toNat % 64 % 32 := by omega
  have hlt := Nat.mod_lt imm.toNat (by decide : 64 > 0)
  rw [hlow]
  generalize imm.toNat % 64 = s at hlt
  unfold zbbUnary32
  simp only [mask32_toNat]
  split
  · exact iff_of_true (some_value (by omega)) (by decide)
  · exact iff_of_true (some_value (by rw [hctz]; exact ctz_toNat _)) (by decide)
  · exact iff_of_true (some_value (by rw [count_signExtend hcount, bitCount_toNat]; rfl)) (by decide)
  · rename_i h0 h1 h2
    by_cases hs : 32 ≤ s ∧ s < 35
    · refine iff_of_false ?_ (not_not.mpr hs)
      have hcase : s % 32 = 0 ∨ s % 32 = 1 ∨ s % 32 = 2 := by omega
      rcases hcase with h | h | h <;> simp [h]
    · refine iff_of_true ?_ hs
      have hne0 : s ≠ 0 := h0
      have hne1 : s ≠ 1 := h1
      have hne2 : s ≠ 2 := h2
      rw [if_neg (by omega), if_neg (by omega), if_neg (by omega)]
      rfl

/-- Encodings whose operation the two sides select by different widths of the immediate. -/
def opImm32Narrow (funct3 : BitVec 3) (funct7 : BitVec 7) (imm : Word) : Prop :=
  funct3 = 0b001 ∧ funct7 = 0x30 ∧ 32 ≤ imm.toNat % 64 ∧ imm.toNat % 64 < 35

theorem opImm32Py001_agrees_iff (funct7 : BitVec 7) (v1 imm : Word) :
    opImm32Py001 funct7 v1.toNat imm.toNat (imm.toNat % 64) =
      value (execOpImm32 0b001 funct7 v1 imm) ↔ ¬ opImm32Narrow 0b001 funct7 imm := by
  have hs : imm.toNat % 64 % 32 = imm.toNat % 32 := by omega
  have hshl : mask64 (shl (mask32 v1.toNat) (imm.toNat % 64)) =
      (((v1 &&& 0xFFFFFFFF) <<< (imm.toNat % 64)).toNat : Int) := by
    rw [uw_toNat]
    exact mask_shl _ _
  unfold opImm32Py001
  split
  · rw [hs, mask32_toNat]
    exact iff_of_true (sext32_mask (mask_shl _ _)) (by simp [opImm32Narrow])
  · exact iff_of_true (some_value hshl) (by simp [opImm32Narrow])
  · exact iff_of_true (some_value hshl) (by simp [opImm32Narrow])
  · exact (zbbUnary32_agrees_iff v1 imm).trans (by simp [opImm32Narrow])
  · rename_i h0 h4 h5 h30
    refine iff_of_true ?_ (by simp_all [opImm32Narrow])
    have huw : ¬ funct7.extractLsb' 1 6 = 0x02 := by
      have h : ∀ f : BitVec 7, f.extractLsb' 1 6 = 0x02 → f = 0x04 ∨ f = 0x05 := by decide
      intro hf
      rcases h funct7 hf with hf | hf
      · exact h4 hf
      · exact h5 hf
    unfold execOpImm32
    rw [if_neg (fun h => huw h.2)]
    split <;> simp_all

theorem opImm32Py101_agrees (funct7 : BitVec 7) (v1 imm : Word) :
    opImm32Py101 funct7 v1.toNat imm.toNat (imm.toNat % 64) =
      value (execOpImm32 0b101 funct7 v1 imm) := by
  have hs : imm.toNat % 64 % 32 = imm.toNat % 32 := by omega
  have hror : ror 32 v1.toNat (imm.toNat % 32) =
      (((v1.setWidth 32).rotateRight (imm.toNat % 32)).toNat : Int) := by
    rw [← ror_mask, ← ror_toNat, ← mask32_toNat]
    rfl
  unfold opImm32Py101
  simp only [hs, mask32_toNat]
  split
  · exact sext32_mask (mask_shr _ _)
  · exact sext32_mask (mask32_sra _ (Nat.mod_lt _ (by decide)))
  · exact some_value (by rw [hror, sext32_toNat])
  · unfold execOpImm32
    split
    · simp_all
    · split <;> simp_all

theorem opImm32Py_agrees_iff (funct3 : BitVec 3) (funct7 : BitVec 7) (v1 imm : Word) :
    opImm32Py funct3 funct7 v1.toNat imm.toNat = value (execOpImm32 funct3 funct7 v1 imm) ↔
      ¬ opImm32Narrow funct3 funct7 imm := by
  have hs : ((imm.toNat : Int) % 64).toNat = imm.toNat % 64 := shamt_toNat imm 64
  unfold opImm32Py
  simp only [hs]
  rcases funct3_cases funct3 with rfl | rfl | rfl | rfl | rfl | rfl | rfl | rfl
  · refine iff_of_true ?_ (by simp [opImm32Narrow])
    exact sext32_mask (addiw_toNat v1 imm)
  · exact opImm32Py001_agrees_iff funct7 v1 imm
  · exact iff_of_true rfl (by simp [opImm32Narrow])
  · exact iff_of_true rfl (by simp [opImm32Narrow])
  · exact iff_of_true rfl (by simp [opImm32Narrow])
  · exact iff_of_true (opImm32Py101_agrees funct7 v1 imm) (by simp [opImm32Narrow])
  · exact iff_of_true rfl (by simp [opImm32Narrow])
  · exact iff_of_true rfl (by simp [opImm32Narrow])

end AluPython

/-! ## All classes -/

inductive AluClass
  | op | opImm | op32 | opImm32
  deriving DecidableEq

open AluPython in
/-- The pure Python computation, by class. `imm` is the immediate as the fields carry it. -/
def aluPython (c : AluClass) (funct3 : BitVec 3) (funct7 : BitVec 7) (v1 v2 imm : Int) : Option Int :=
  match c with
  | .op => aluPyOps funct3 funct7 v1 v2
  | .opImm => opImmPy funct3 funct7 v1 imm
  | .op32 => op32Py funct3 funct7 v1 v2
  | .opImm32 => opImm32Py funct3 funct7 v1 imm

def aluNative (c : AluClass) (funct3 : BitVec 3) (funct7 : BitVec 7) (v1 v2 imm : Word) : Option Word :=
  match c with
  | .op => execAluOp funct3 funct7 v1 v2
  | .opImm => execOpImm funct3 funct7 v1 imm
  | .op32 => execOp32 funct3 funct7 v1 v2
  | .opImm32 => execOpImm32 funct3 funct7 v1 imm

/-- The sign-extended immediate of both sides. -/
def imm12Se (imm12 : BitVec 12) : Word := imm12.signExtend 64

theorem sext12_toNat (imm12 : BitVec 12) :
    Unbounded.sext 12 imm12.toNat = ((imm12Se imm12).toNat : Int) := by
  rw [Unbounded.sext_natCast (by decide), BitVec.ofNat_toNat, BitVec.setWidth_eq, imm12Se]

open AluPython in
/-- Where the two sides compute alike. -/
def AluMeets (c : AluClass) (funct3 : BitVec 3) (funct7 : BitVec 7) (imm12 : BitVec 12) (v1 : Word) :
    Prop :=
  match c with
  | .op => True
  | .opImm => funct3 = 0b010 → (imm12Se imm12).toInt < 0 → v1.toInt < (imm12Se imm12).toInt
  | .op32 => op32Extra funct3 funct7 = false
  | .opImm32 => ¬ opImm32Narrow funct3 funct7 (imm12Se imm12)

/-- Both sides refuse the same encodings and give the same values but for `slti` with a negative
immediate, the word encodings that Python adds, and unary word operations on six bits. -/
theorem alu_agree_iff (c : AluClass) (funct3 : BitVec 3) (funct7 : BitVec 7) (imm12 : BitVec 12)
    (v1 v2 : Word) :
    aluPython c funct3 funct7 v1.toNat v2.toNat (Unbounded.sext 12 imm12.toNat) =
      AluPython.value (aluNative c funct3 funct7 v1 v2 (imm12Se imm12)) ↔
    AluMeets c funct3 funct7 imm12 v1 := by
  rw [sext12_toNat]
  cases c with
  | op => exact iff_of_true (AluPython.aluPyOps_agrees v1 v2 funct3 funct7) trivial
  | opImm => exact AluPython.opImmPy_agrees_iff funct3 funct7 v1 (imm12Se imm12)
  | op32 => exact AluPython.op32Py_agrees_iff funct3 funct7 v1 v2
  | opImm32 => exact AluPython.opImm32Py_agrees_iff funct3 funct7 v1 (imm12Se imm12)

/-- `slti` of 0 with -1: 1 in Python, 0 in the native unit. `xorw` exists in Python only. -/
theorem slti_negative_differs :
    aluPython .opImm 0b010 0x7F 0 0 (Unbounded.sext 12 0xFFF) = some 1 ∧
      aluNative .opImm 0b010 0x7F 0 0 (imm12Se 0xFFF) = some 0 ∧
      aluPython .op32 0b100 0x00 1 0 0 = some 1 ∧ aluNative .op32 0b100 0x00 1 0 0 = none := by
  decide

end Pyremu
