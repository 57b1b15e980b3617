import Pyremu.AluAgree
import Pyremu.Decode
import Pyremu.Lib.Bits
import Pyremu.Lib.Rv64

/-!
# The arithmetic unit against the ISA

Every operation of `alu.rs` gives the value that the ISA defines, and every
encoding it knows is one of the ISA. The one that is missing is `zext.h`.
-/

namespace Pyremu

namespace AluIsa

/-! ## Values -/

section Values

variable {n : Nat} (x y : BitVec n)

theorem ofInt_overflow (n : Nat) : BitVec.ofInt (n + 1) (2 ^ n) = BitVec.ofInt (n + 1) (-2 ^ n) := by
  have hsplit : (2 : Int) ^ n = -2 ^ n + 2 ^ (n + 1) := by
    rw [Int.pow_succ]
    omega
  rw [hsplit, BitVec.ofInt_add, Unbounded.ofInt_two_pow]
  have hzero : BitVec.twoPow (n + 1) (n + 1) = 0#(n + 1) := BitVec.eq_of_toNat_eq (by simp)
  rw [hzero, BitVec.add_zero, ← hsplit]

theorem sdiv_eq_ofInt : x.sdiv y = BitVec.ofInt n (x.toInt.tdiv y.toInt) := by
  apply BitVec.eq_of_toInt_eq
  rw [BitVec.toInt_sdiv, BitVec.toInt_ofInt]

theorem toInt_eq_zero : y.toInt = 0 ↔ y = 0 := by
  constructor
  · intro h
    by_contra hne
    exact AluPython.toInt_ne_zero hne h
  · rintro rfl
    exact BitVec.toInt_zero

theorem toNat_eq_zero : y.toNat = 0 ↔ y = 0 := by
  constructor
  · intro h
    exact BitVec.eq_of_toNat_eq h
  · rintro rfl
    rfl

theorem div_eq : Rv64.div x y = divS x y := by
  rw [Rv64.div, divS]
  by_cases hy : y = 0
  · rw [if_pos ((toInt_eq_zero y).mpr hy), if_pos hy, BitVec.ofInt_neg, BitVec.ofInt_ofNat,
      BitVec.neg_one_eq_allOnes]
  · rw [if_neg (mt (toInt_eq_zero y).mp hy), if_neg hy, sdiv_eq_ofInt]
    split
    · rename_i hover
      obtain ⟨hmin, hone⟩ := hover
      rw [hmin, hone, Int.tdiv_neg, Int.tdiv_one, Int.neg_neg]
      cases n with
      | zero => exact BitVec.eq_of_toNat_eq (by omega)
      | succ n =>
        rw [Nat.add_sub_cancel] at hmin ⊢
        rw [ofInt_overflow, ← hmin, BitVec.ofInt_toInt]
    · rfl

theorem rem_eq : Rv64.rem x y = remS x y := by
  rw [Rv64.rem, remS]
  by_cases hy : y = 0
  · rw [if_pos ((toInt_eq_zero y).mpr hy), if_pos hy]
  · have hsrem : x.srem y = BitVec.ofInt n (x.toInt.tmod y.toInt) := by
      rw [← BitVec.toInt_srem, BitVec.ofInt_toInt]
    rw [if_neg (mt (toInt_eq_zero y).mp hy), if_neg hy, hsrem]
    split
    · rename_i hover
      rw [hover.2, Int.tmod_neg, Int.tmod_one]
      rfl
    · rfl

theorem divu_eq : Rv64.divu x y = divU x y := by
  rw [Rv64.divu, divU]
  by_cases hy : y = 0
  · rw [if_pos ((toNat_eq_zero y).mpr hy), if_pos hy]
    apply BitVec.eq_of_toNat_eq
    simp
  · rw [if_neg (mt (toNat_eq_zero y).mp hy), if_neg hy, ← BitVec.toNat_udiv, Rv64.ofNat_toNat_self]

theorem remu_eq : Rv64.remu x y = remU x y := by
  rw [Rv64.remu, remU]
  by_cases hy : y = 0
  · rw [if_pos ((toNat_eq_zero y).mpr hy), if_pos hy]
  · rw [if_neg (mt (toNat_eq_zero y).mp hy), if_neg hy, ← BitVec.toNat_umod, Rv64.ofNat_toNat_self]

/-! ## Words and bytes -/

theorem sext_eq (w : BitVec 32) : Rv64.sext w = w.signExtend 64 := rfl

theorem zextLow_eq (v : Word) : Rv64.zextLow 32 v = v &&& 0xFFFFFFFF := by
  apply BitVec.eq_of_toNat_eq
  have h : v.toNat &&& 0xFFFFFFFF = v.toNat % 2 ^ 32 := Nat.and_two_pow_sub_one_eq_mod _ 32
  rw [Rv64.zextLow, BitVec.toNat_ofNat, BitVec.toNat_and]
  exact (Nat.mod_eq_of_lt (by omega)).trans h.symm

end Values

/-! ## Registers -/

section Op

variable (x y : Word)

theorem mulHigh_eq (a b : Int) : mulHigh a b = BitVec.ofInt 64 (a * b / 2 ^ 64) := by
  rw [mulHigh, Int.shiftRight_eq_div_pow]
  rfl

theorem mulhu_eq : Rv64.mulhu x y = mulHigh x.toNat y.toNat := by
  rw [mulHigh_eq, Rv64.mulhu, ← BitVec.ofInt_natCast]
  push_cast
  rfl

theorem slt_eq : Rv64.slt x y = ofBool (x.slt y) := by
  rw [Rv64.slt_eq, ofBool]

theorem sltu_eq : Rv64.sltu x y = ofBool (x.ult y) := by
  rw [Rv64.sltu_eq, ofBool]

variable {x y}

theorem of_reg {funct3 : BitVec 3} {funct7 : BitVec 7} {top : BitVec 12} {v w : Word}
    (hm : top.extractLsb' 5 7 = funct7) (hx : execAluOp funct3 funct7 x y = some v) (hw : w = v) :
    execAluOp funct3 (top.extractLsb' 5 7) x y = some w := by
  rw [hm, hx, hw]

variable (x y)

/-- The register operations. -/
theorem execAluOp_value (o : Rv64.Op) {top : BitVec 12} (hm : o.encoding.2.Matches top) :
    execAluOp o.encoding.1 (top.extractLsb' 5 7) x y = some (o.value x y) := by
  have hs : y.toNat % 64 < 64 := Nat.mod_lt _ (by decide)
  cases o with
  | add => exact of_reg hm rfl (Rv64.add_eq x y)
  | sub => exact of_reg hm rfl (Rv64.sub_eq x y)
  | sll => exact of_reg hm rfl (Rv64.sll_eq x _)
  | slt => exact of_reg hm rfl (slt_eq x y)
  | sltu => exact of_reg hm rfl (sltu_eq x y)
  | xor => exact of_reg hm rfl (Rv64.xor_eq x y)
  | srl => exact of_reg hm rfl (Rv64.srl_eq x _)
  | sra => exact of_reg hm rfl (Rv64.sra_eq x _)
  | or => exact of_reg hm rfl (Rv64.or_eq x y)
  | and => exact of_reg hm rfl (Rv64.and_eq x y)
  | mul => exact of_reg hm rfl (Rv64.mul_eq x y)
  | mulh => exact of_reg hm rfl (mulHigh_eq x.toInt y.toInt).symm
  | mulhsu => exact of_reg hm rfl (mulHigh_eq x.toInt y.toNat).symm
  | mulhu => exact of_reg hm rfl (mulhu_eq x y)
  | div => exact of_reg hm rfl (div_eq x y)
  | divu => exact of_reg hm rfl (divu_eq x y)
  | rem => exact of_reg hm rfl (rem_eq x y)
  | remu => exact of_reg hm rfl (remu_eq x y)
  | sh1add => exact of_reg hm rfl (Rv64.shadd_eq x y 1)
  | sh2add => exact of_reg hm rfl (Rv64.shadd_eq x y 2)
  | sh3add => exact of_reg hm rfl (Rv64.shadd_eq x y 3)
  | andn => exact of_reg hm rfl (Rv64.andn_eq x y)
  | orn => exact of_reg hm rfl (Rv64.orn_eq x y)
  | xnor => exact of_reg hm rfl (Rv64.xnor_eq x y)
  | max => exact of_reg hm rfl (Rv64.max_eq x y)
  | maxu => exact of_reg hm rfl (Rv64.maxu_eq x y)
  | min => exact of_reg hm rfl (Rv64.min_eq x y)
  | minu => exact of_reg hm rfl (Rv64.minu_eq x y)
  | rol => exact of_reg hm rfl (Rv64.rol_eq x hs)
  | ror => exact of_reg hm rfl (Rv64.ror_eq x hs)
  | bclr => exact of_reg hm rfl (Rv64.bclr_eq x hs)
  | bext => exact of_reg hm rfl (Rv64.bext_eq x _)
  | binv => exact of_reg hm rfl (Rv64.binv_eq x hs)
  | bset => exact of_reg hm rfl (Rv64.bset_eq x hs)

theorem exists_op : ∀ funct3 : BitVec 3, ∀ funct7 ∈ AluPython.aluFunct7 funct3,
    ∃ o ∈ Rv64.Op.all, o.encoding = (funct3, .reg funct7) := by
  decide

/-- Every other encoding is refused. -/
theorem execAluOp_refused {funct3 : BitVec 3} {top : BitVec 12}
    (hno : ∀ o : Rv64.Op, ¬ (funct3 = o.encoding.1 ∧ o.encoding.2.Matches top)) :
    execAluOp funct3 (top.extractLsb' 5 7) x y = none := by
  have hmem : top.extractLsb' 5 7 ∉ AluPython.aluFunct7 funct3 := by
    intro hmem
    obtain ⟨o, _, ho⟩ := exists_op funct3 _ hmem
    exact hno o ⟨by rw [ho], by rw [ho]; rfl⟩
  cases h : execAluOp funct3 (top.extractLsb' 5 7) x y with
  | none => rfl
  | some v =>
    have hother := AluPython.execAluOp_other x y hmem
    rw [h] at hother
    cases hother

end Op

/-! ## An immediate operand -/

section OpImm

variable (x : Word) (top : BitVec 12)

theorem funct6_top : (top.extractLsb' 5 7).extractLsb' 1 6 = top.extractLsb' 6 6 :=
  BitFields.extractLsb'_extractLsb' _ (by decide)

theorem toNat_imm_mod {k : Nat} (hk : k ≤ 12) : (imm12Se top).toNat % 2 ^ k = top.toNat % 2 ^ k := by
  have h : (imm12Se top).setWidth k = top.setWidth k := by
    apply BitVec.eq_of_getLsbD_eq
    intro i hi
    have h64 : i < 64 := by omega
    have h12 : i < 12 := by omega
    rw [BitVec.getLsbD_setWidth, BitVec.getLsbD_setWidth, imm12Se, BitVec.getLsbD_signExtend]
    simp [h64, h12]
  rw [← BitVec.toNat_setWidth, h, BitVec.toNat_setWidth]

/-- The upper bits and the shift amount make up the field. -/
theorem eq_ofNat_top {j l : Nat} (hj : j + l = 12) {c : BitVec l} (h : top.extractLsb' j l = c) :
    top = BitVec.ofNat 12 (c.toNat * 2 ^ j + top.toNat % 2 ^ j) := by
  have hlt : top.toNat / 2 ^ j < 2 ^ l := by
    rw [Nat.div_lt_iff_lt_mul (Nat.two_pow_pos j), ← Nat.pow_add, Nat.add_comm l, hj]
    exact top.isLt
  rw [← h, BitVec.extractLsb'_toNat, Nat.shiftRight_eq_div_pow, Nat.mod_eq_of_lt hlt, Nat.div_add_mod',
    BitVec.ofNat_toNat, BitVec.setWidth_eq]

theorem countOnes_eq {n : Nat} (v : BitVec n) : Rv64.cpop v = BitVec.ofNat n (countOnes v) := rfl

/-! Bytes put together one after the other. -/

theorem getLsbD_foldl_or (g : Nat → Word) (m i : Nat) :
    ((List.range m).foldl (fun out k => out ||| g k) 0).getLsbD i =
      (List.range m).any fun k => (g k).getLsbD i := by
  induction m with
  | zero => simp
  | succ m ih =>
    rw [List.range_succ, List.foldl_append, List.any_append, ← ih]
    simp

theorem getLsbD_byte_shl {b : Word} (hb : b.toNat < 256) {i : Nat} (hi : i < 64) (j : Nat) :
    (b <<< (j * 8)).getLsbD i = (decide (i / 8 = j) && b.getLsbD (i % 8)) := by
  rw [BitVec.getLsbD_shiftLeft]
  by_cases hj : i / 8 = j
  · have hsub : i - j * 8 = i % 8 := by omega
    have hge : ¬ i < j * 8 := by omega
    simp [hi, hj, hsub, hge]
  · by_cases hlt : i < j * 8
    · simp [hlt, hj]
    · have hpow : 2 ^ 8 ≤ 2 ^ (i - j * 8) := Nat.pow_le_pow_right (by decide) (by omega)
      have hhigh : b.getLsbD (i - j * 8) = false := Nat.testBit_lt_two_pow (Nat.lt_of_lt_of_le hb hpow)
      simp [hhigh, hj]

theorem any_range_single {k m : Nat} (hk : k < m) {p : Nat → Bool} {q : Bool}
    (h : ∀ j < m, p j = (decide (j = k) && q)) : (List.range m).any p = q := by
  rw [Bool.eq_iff_iff, List.any_eq_true]
  constructor
  · rintro ⟨j, hj, hp⟩
    rw [h j (List.mem_range.mp hj), Bool.and_eq_true] at hp
    exact hp.2
  · intro hq
    exact ⟨k, List.mem_range.mpr hk, by rw [h k hk, hq]; simp⟩

theorem getLsbD_byte (v : Word) (k j : Nat) :
    ((v >>> (k * 8)) &&& 0xFF).getLsbD j = (decide (j < 8) && v.getLsbD (k * 8 + j)) := by
  have hmask : (0xFF : Word) = (BitVec.allOnes 8).setWidth 64 := by decide
  rw [BitVec.getLsbD_and, BitVec.getLsbD_ushiftRight, hmask, BitVec.getLsbD_setWidth, BitVec.getLsbD_allOnes]
  by_cases hj : j < 8
  · have h64 : j < 64 := by omega
    simp [hj, h64]
  · simp [hj]

theorem byte_ne_zero (v : Word) (k : Nat) :
    decide ((v >>> (k * 8)) &&& 0xFF ≠ 0) = (List.range 8).any fun j => v.getLsbD (k * 8 + j) := by
  rw [Bool.eq_iff_iff, decide_eq_true_iff, List.any_eq_true]
  constructor
  · intro hne
    by_contra hnone
    apply hne
    apply BitVec.eq_of_getLsbD_eq
    intro j _
    rw [getLsbD_byte]
    by_cases hj : j < 8
    · have hbit : ¬ v.getLsbD (k * 8 + j) = true := fun h => hnone ⟨j, List.mem_range.mpr hj, h⟩
      simp [hbit]
    · simp [hj]
  · rintro ⟨j, hj, hbit⟩ hzero
    have h := getLsbD_byte v k j
    rw [hzero, hbit] at h
    simp [List.mem_range.mp hj] at h

theorem orcb_eq : Rv64.orcb x = orcB x := by
  have hfold : orcB x = (List.range 8).foldl (fun out k =>
      out ||| ((if (x >>> (k * 8)) &&& 0xFF ≠ 0 then 0xFF else 0 : Word) <<< (k * 8))) 0 := by
    rw [orcB]
    congr 1
    funext out k
    split <;> simp
  rw [hfold]
  apply Rv64.ofBits_eq
  intro i hi
  rw [getLsbD_foldl_or, ← byte_ne_zero]
  symm
  apply any_range_single (k := i / 8) (by omega)
  intro j _
  rw [getLsbD_byte_shl (by split <;> decide) hi]
  by_cases hj : j = i / 8
  · subst hj
    have hmod : i % 8 < 8 := Nat.mod_lt _ (by decide)
    have hones : (0xFF : Word).getLsbD (i % 8) = true := by
      have h : ∀ k < 8, (0xFF : Word).getLsbD k = true := by decide
      exact h _ hmod
    by_cases hset : (x >>> (i / 8 * 8)) &&& 0xFF ≠ 0
    · rw [if_pos hset, decide_eq_true hset, hones]
    · rw [if_neg hset, decide_eq_false hset]
      simp
  · have hj' : ¬ i / 8 = j := fun h => hj h.symm
    simp [hj, hj']

theorem rev8_eq : Rv64.rev8 x = swapBytes x := by
  rw [swapBytes]
  apply Rv64.ofBits_eq
  intro i hi
  rw [getLsbD_foldl_or]
  symm
  apply any_range_single (k := 7 - i / 8) (by omega)
  intro j hj
  rw [getLsbD_byte_shl (AluPython.byte_lt x j) hi, getLsbD_byte]
  by_cases hk : j = 7 - i / 8
  · have hpos : i / 8 = 7 - j := by omega
    have hmod : i % 8 < 8 := Nat.mod_lt _ (by decide)
    have hback : 7 - (7 - i / 8) = i / 8 := by omega
    simp [hk, hmod, hback]
  · have hpos : ¬ i / 8 = 7 - j := by omega
    simp [hk, hpos]

variable {x top}

theorem of_imm {funct3 : BitVec 3} {v w : Word}
    (hx : execOpImm funct3 (top.extractLsb' 5 7) x (imm12Se top) = some v) (hw : w = v) :
    execOpImm funct3 (top.extractLsb' 5 7) x (imm12Se top) = some w := by
  rw [hx, hw]

/-- The shifts by a constant and the operations on one bit. -/
theorem of_shift6 {funct3 : BitVec 3} {funct6 : BitVec 6} {f : Nat → Word} {w : Word}
    (hm : top.extractLsb' 6 6 = funct6)
    (hx : ∀ (funct7 : BitVec 7) (imm : Word), funct7.extractLsb' 1 6 = funct6 →
      execOpImm funct3 funct7 x imm = some (f (imm.toNat % 64)))
    (hw : w = f (top.toNat % 64)) : execOpImm funct3 (top.extractLsb' 5 7) x (imm12Se top) = some w := by
  rw [hx _ _ ((funct6_top top).trans hm), hw]
  exact congrArg (fun k => some (f k)) (toNat_imm_mod top (show 6 ≤ 12 by decide))

/-- The operations without an operand in the immediate. -/
theorem of_unary {funct3 : BitVec 3} {funct12 : BitVec 12} {v w : Word} (hm : top = funct12)
    (hx : execOpImm funct3 (funct12.extractLsb' 5 7) x (imm12Se funct12) = some v) (hw : w = v) :
    execOpImm funct3 (top.extractLsb' 5 7) x (imm12Se top) = some w := by
  rw [hm, hx, hw]

variable (x)

theorem execOpImm_value (o : Rv64.OpImm) (hm : o.encoding.2.Matches top) :
    execOpImm o.encoding.1 (top.extractLsb' 5 7) x (imm12Se top) = some (o.value x top) := by
  have hs : top.toNat % 64 < 64 := Nat.mod_lt _ (by decide)
  cases o with
  | addi => exact of_imm rfl (Rv64.add_eq x _)
  | slti => exact of_imm rfl (slt_eq x _)
  | sltiu => exact of_imm rfl (sltu_eq x _)
  | xori => exact of_imm rfl (Rv64.xor_eq x _)
  | ori => exact of_imm rfl (Rv64.or_eq x _)
  | andi => exact of_imm rfl (Rv64.and_eq x _)
  | slli => exact of_shift6 hm (fun _ _ h => by simp only [execOpImm, h]; rfl) (Rv64.sll_eq x _)
  | srli => exact of_shift6 hm (fun _ _ h => by simp only [execOpImm, h]; rfl) (Rv64.srl_eq x _)
  | srai => exact of_shift6 hm (fun _ _ h => by simp only [execOpImm, h]; rfl) (Rv64.sra_eq x _)
  | clz => exact of_unary hm rfl (Rv64.clz_eq x)
  | ctz => exact of_unary hm rfl (Rv64.ctz_eq x)
  | cpop => exact of_unary hm rfl (countOnes_eq x)
  | sextb => exact of_unary hm rfl rfl
  | sexth => exact of_unary hm rfl rfl
  | rori => exact of_shift6 hm (fun _ _ h => by simp only [execOpImm, h]; rfl) (Rv64.ror_eq x hs)
  | orcb => exact of_unary hm rfl (orcb_eq x)
  | rev8 => exact of_unary hm rfl (rev8_eq x)
  | bclri =>
    exact of_shift6 (f := fun k => x &&& ~~~(1#64 <<< k)) hm (fun _ _ h => by simp only [execOpImm, h]; rfl)
      (Rv64.bclr_eq x hs)
  | bexti =>
    exact of_shift6 (f := fun k => (x >>> k) &&& 1) hm (fun _ _ h => by simp only [execOpImm, h]; rfl)
      (Rv64.bext_eq x _)
  | binvi =>
    exact of_shift6 (f := fun k => x ^^^ (1#64 <<< k)) hm (fun _ _ h => by simp only [execOpImm, h]; rfl)
      (Rv64.binv_eq x hs)
  | bseti =>
    exact of_shift6 (f := fun k => x ||| (1#64 <<< k)) hm (fun _ _ h => by simp only [execOpImm, h]; rfl)
      (Rv64.bset_eq x hs)

/-- An operation whose immediate is fixed is no other. -/
theorem zbbUnaryImm_refused (hno : ∀ o : Rv64.OpImm, ¬ (0b001 = o.encoding.1 ∧ o.encoding.2.Matches top))
    (h6 : top.extractLsb' 6 6 = 0b011000) : zbbUnaryImm x (top.toNat % 64) = none := by
  have hlow : ∀ k, top.toNat % 64 = k → top = BitVec.ofNat 12 (1536 + k) := fun k hk => by
    rw [eq_ofNat_top top rfl h6, show top.toNat % 2 ^ 6 = k from hk]
    rfl
  unfold zbbUnaryImm
  split
  · rename_i h
    exact absurd ⟨rfl, hlow 0 h⟩ (hno .clz)
  · rename_i h
    exact absurd ⟨rfl, hlow 1 h⟩ (hno .ctz)
  · rename_i h
    exact absurd ⟨rfl, hlow 2 h⟩ (hno .cpop)
  · rename_i h
    exact absurd ⟨rfl, hlow 4 h⟩ (hno .sextb)
  · rename_i h
    exact absurd ⟨rfl, hlow 5 h⟩ (hno .sexth)
  · rfl

theorem imm12Se_eq {c : BitVec 12} : imm12Se top = imm12Se c ↔ top = c := by
  constructor
  · intro h
    have hlow := congrArg (fun v : Word => v.toNat % 2 ^ 12) h
    simp only [toNat_imm_mod _ (le_refl 12)] at hlow
    apply BitVec.eq_of_toNat_eq
    omega
  · rintro rfl
    rfl

theorem execOpImm_refused {funct3 : BitVec 3}
    (hno : ∀ o : Rv64.OpImm, ¬ (funct3 = o.encoding.1 ∧ o.encoding.2.Matches top)) :
    execOpImm funct3 (top.extractLsb' 5 7) x (imm12Se top) = none := by
  unfold execOpImm
  simp only [funct6_top]
  split
  · exact absurd ⟨rfl, trivial⟩ (hno .addi)
  · split
    · rename_i h
      exact absurd ⟨rfl, h⟩ (hno .slli)
    · rename_i h
      exact absurd ⟨rfl, h⟩ (hno .bseti)
    · rename_i h
      exact absurd ⟨rfl, h⟩ (hno .bclri)
    · rename_i h
      rw [show (imm12Se top).toNat % 64 = top.toNat % 64 from toNat_imm_mod top (show 6 ≤ 12 by decide)]
      exact zbbUnaryImm_refused x hno h
    · rename_i h
      exact absurd ⟨rfl, h⟩ (hno .binvi)
    · rfl
  · exact absurd ⟨rfl, trivial⟩ (hno .slti)
  · exact absurd ⟨rfl, trivial⟩ (hno .sltiu)
  · exact absurd ⟨rfl, trivial⟩ (hno .xori)
  · split
    · rename_i h
      exact absurd ⟨rfl, h⟩ (hno .srli)
    · have hne : ¬ imm12Se top = 0x287 := fun h => hno .orcb ⟨rfl, imm12Se_eq.mp h⟩
      rw [if_neg hne]
    · rename_i h
      exact absurd ⟨rfl, h⟩ (hno .srai)
    · rename_i h
      exact absurd ⟨rfl, h⟩ (hno .bexti)
    · rename_i h
      exact absurd ⟨rfl, h⟩ (hno .rori)
    · have hne : ¬ imm12Se top = 0x6B8 := fun h => hno .rev8 ⟨rfl, imm12Se_eq.mp h⟩
      rw [if_neg hne]
    · rfl
  · exact absurd ⟨rfl, trivial⟩ (hno .ori)
  · exact absurd ⟨rfl, trivial⟩ (hno .andi)

end OpImm

/-! ## Words -/

section Op32

variable (x y : Word)

theorem toNat_word_mod {k : Nat} (hk : k ≤ 32) : (y.setWidth 32).toNat % 2 ^ k = y.toNat % 2 ^ k := by
  rw [BitVec.toNat_setWidth, Nat.mod_mod_of_dvd _ (Nat.pow_dvd_pow 2 hk)]

theorem shamt_word : (y.setWidth 32).toNat % 32 = y.toNat % 32 := toNat_word_mod y (show 5 ≤ 32 by decide)

variable {x y}

theorem of_reg32 {funct3 : BitVec 3} {funct7 : BitVec 7} {top : BitVec 12} {v w : Word}
    (hm : top.extractLsb' 5 7 = funct7) (hx : execOp32 funct3 funct7 x y = some v) (hw : w = v) :
    execOp32 funct3 (top.extractLsb' 5 7) x y = some w := by
  rw [hm, hx, hw]

theorem sext_congr {v w : BitVec 32} (h : w = v) : Rv64.sext w = v.signExtend 64 := by
  rw [h, sext_eq]

theorem shadd_uw (k : Nat) : Rv64.shadd (Rv64.zextLow 32 x) y k = ((x &&& 0xFFFFFFFF) <<< k) + y := by
  rw [Rv64.shadd_eq, zextLow_eq]

variable (x y)

theorem execOp32_value (o : Rv64.Op32) (hne : o ≠ .zexth) {top : BitVec 12} (hm : o.encoding.2.Matches top) :
    execOp32 o.encoding.1 (top.extractLsb' 5 7) x y = some (o.value x y) := by
  have hs : y.toNat % 32 < 32 := Nat.mod_lt _ (by decide)
  have hshamt := shamt_word y
  cases o with
  | addw => exact of_reg32 hm rfl (sext_congr (Rv64.add_eq _ _))
  | subw => exact of_reg32 hm rfl (sext_congr (Rv64.sub_eq _ _))
  | sllw => exact of_reg32 hm rfl (sext_congr (by rw [hshamt]; exact Rv64.sll_eq _ _))
  | srlw => exact of_reg32 hm rfl (sext_congr (by rw [hshamt]; exact Rv64.srl_eq _ _))
  | sraw => exact of_reg32 hm rfl (sext_congr (by rw [hshamt]; exact Rv64.sra_eq _ _))
  | mulw => exact of_reg32 hm rfl (sext_congr (Rv64.mul_eq _ _))
  | divw => exact of_reg32 hm rfl (sext_congr (div_eq _ _))
  | divuw => exact of_reg32 hm rfl (sext_congr (divu_eq _ _))
  | remw => exact of_reg32 hm rfl (sext_congr (rem_eq _ _))
  | remuw => exact of_reg32 hm rfl (sext_congr (remu_eq _ _))
  | adduw => exact of_reg32 hm rfl ((shadd_uw 0).trans (by rw [BitVec.shiftLeft_zero]))
  | sh1adduw => exact of_reg32 hm rfl (shadd_uw 1)
  | sh2adduw => exact of_reg32 hm rfl (shadd_uw 2)
  | sh3adduw => exact of_reg32 hm rfl (shadd_uw 3)
  | rolw => exact of_reg32 hm rfl (sext_congr (by rw [hshamt]; exact Rv64.rol_eq _ hs))
  | rorw => exact of_reg32 hm rfl (sext_congr (by rw [hshamt]; exact Rv64.ror_eq _ hs))
  | zexth => exact absurd rfl hne

theorem execOp32_refused {funct3 : BitVec 3} {top : BitVec 12}
    (hno : ∀ o : Rv64.Op32, ¬ (funct3 = o.encoding.1 ∧ o.encoding.2.Matches top)) :
    execOp32 funct3 (top.extractLsb' 5 7) x y = none := by
  unfold execOp32
  split
  · rename_i h
    exact absurd ⟨rfl, h⟩ (hno .adduw)
  · rename_i h
    exact absurd ⟨rfl, h⟩ (hno .sh1adduw)
  · rename_i h
    exact absurd ⟨rfl, h⟩ (hno .sh2adduw)
  · rename_i h
    exact absurd ⟨rfl, h⟩ (hno .sh3adduw)
  · rename_i h
    exact absurd ⟨rfl, h⟩ (hno .addw)
  · rename_i h
    exact absurd ⟨rfl, h⟩ (hno .mulw)
  · rename_i h
    exact absurd ⟨rfl, h⟩ (hno .subw)
  · rename_i h
    exact absurd ⟨rfl, h⟩ (hno .sllw)
  · rename_i h
    exact absurd ⟨rfl, h⟩ (hno .rolw)
  · rename_i h
    exact absurd ⟨rfl, h⟩ (hno .divw)
  · rename_i h
    exact absurd ⟨rfl, h⟩ (hno .srlw)
  · rename_i h
    exact absurd ⟨rfl, h⟩ (hno .divuw)
  · rename_i h
    exact absurd ⟨rfl, h⟩ (hno .sraw)
  · rename_i h
    exact absurd ⟨rfl, h⟩ (hno .rorw)
  · rename_i h
    exact absurd ⟨rfl, h⟩ (hno .remw)
  · rename_i h
    exact absurd ⟨rfl, h⟩ (hno .remuw)
  · rfl

end Op32

/-! ## Words and an immediate -/

section OpImm32

variable (x : Word) (top : BitVec 12)

theorem shamt_imm : (imm12Se top).toNat % 32 = top.toNat % 32 := toNat_imm_mod top (show 5 ≤ 12 by decide)

theorem setWidth_imm : (imm12Se top).setWidth 32 = BitVec.ofInt 32 top.toInt := by
  have h : (imm12Se top).setWidth 32 = top.signExtend 32 := by
    apply BitVec.eq_of_getLsbD_eq
    intro i hi
    have h64 : i < 64 := by omega
    rw [BitVec.getLsbD_setWidth, imm12Se, BitVec.getLsbD_signExtend, BitVec.getLsbD_signExtend]
    simp [hi, h64]
  rw [h]
  rfl

variable {x top}

theorem of_shift5 {funct3 : BitVec 3} {funct7 : BitVec 7} {f : Nat → BitVec 32} {w : BitVec 32}
    (hm : top.extractLsb' 5 7 = funct7)
    (hx : ∀ imm : Word, execOpImm32 funct3 funct7 x imm = some ((f (imm.toNat % 32)).signExtend 64))
    (hw : w = f (top.toNat % 32)) :
    execOpImm32 funct3 (top.extractLsb' 5 7) x (imm12Se top) = some (Rv64.sext w) := by
  rw [hm, hx, shamt_imm, hw, sext_eq]

theorem of_unary32 {funct12 : BitVec 12} {v w : BitVec 32} (hm : top = funct12)
    (hx : execOpImm32 0b001 (funct12.extractLsb' 5 7) x (imm12Se funct12) = some (v.signExtend 64)) (hw : w = v) :
    execOpImm32 0b001 (top.extractLsb' 5 7) x (imm12Se top) = some (Rv64.sext w) := by
  rw [hm, hx, hw, sext_eq]

variable (x)

theorem execOpImm32_value (o : Rv64.OpImm32) (hm : o.encoding.2.Matches top) :
    execOpImm32 o.encoding.1 (top.extractLsb' 5 7) x (imm12Se top) = some (o.value x top) := by
  have hs : top.toNat % 32 < 32 := Nat.mod_lt _ (by decide)
  cases o with
  | addiw =>
    have hadd : Rv64.add (Rv64.word x) (BitVec.ofInt 32 top.toInt) =
        x.setWidth 32 + (imm12Se top).setWidth 32 := by
      rw [setWidth_imm]
      exact Rv64.add_eq _ _
    unfold execOpImm32
    rw [if_neg fun h => absurd h.1 (by decide)]
    exact congrArg some (sext_congr hadd).symm
  | slliw => exact of_shift5 (f := fun k => Rv64.word x <<< k) hm (fun _ => rfl) (Rv64.sll_eq _ _)
  | srliw => exact of_shift5 (f := fun k => Rv64.word x >>> k) hm (fun _ => rfl) (Rv64.srl_eq _ _)
  | sraiw => exact of_shift5 (f := fun k => (Rv64.word x).sshiftRight k) hm (fun _ => rfl) (Rv64.sra_eq _ _)
  | slliuw =>
    unfold execOpImm32
    rw [if_pos ⟨rfl, (funct6_top top).trans hm⟩, ← zextLow_eq, ← Rv64.sll_eq]
    exact congrArg (fun k => some (Rv64.sll _ k)) (toNat_imm_mod top (show 6 ≤ 12 by decide))
  | clzw => exact of_unary32 hm rfl (Rv64.clz_eq _)
  | ctzw => exact of_unary32 hm rfl (Rv64.ctz_eq _)
  | cpopw => exact of_unary32 hm rfl (countOnes_eq _)
  | roriw => exact of_shift5 (f := fun k => (Rv64.word x).rotateRight k) hm (fun _ => rfl) (Rv64.ror_eq _ hs)

theorem execOpImm32_refused {funct3 : BitVec 3}
    (hno : ∀ o : Rv64.OpImm32, ¬ (funct3 = o.encoding.1 ∧ o.encoding.2.Matches top)) :
    execOpImm32 funct3 (top.extractLsb' 5 7) x (imm12Se top) = none := by
  have huw : ¬ (funct3 = 0b001 ∧ (top.extractLsb' 5 7).extractLsb' 1 6 = 0x02) := by
    rintro ⟨rfl, h⟩
    exact hno .slliuw ⟨rfl, by rwa [funct6_top] at h⟩
  unfold execOpImm32
  rw [if_neg huw]
  split
  · exact absurd ⟨rfl, trivial⟩ (hno .addiw)
  · rename_i h
    exact absurd ⟨rfl, h⟩ (hno .slliw)
  · rename_i h
    have hlow : ∀ k, (imm12Se top).toNat % 32 = k → top = BitVec.ofNat 12 (1536 + k) := fun k hk => by
      rw [eq_ofNat_top top rfl h, show top.toNat % 2 ^ 5 = k from (shamt_imm top).symm.trans hk]
      rfl
    rw [if_neg fun h => hno .clzw ⟨rfl, hlow 0 h⟩, if_neg fun h => hno .ctzw ⟨rfl, hlow 1 h⟩,
      if_neg fun h => hno .cpopw ⟨rfl, hlow 2 h⟩]
  · rename_i h
    exact absurd ⟨rfl, h⟩ (hno .srliw)
  · rename_i h
    exact absurd ⟨rfl, h⟩ (hno .sraiw)
  · rename_i h
    exact absurd ⟨rfl, h⟩ (hno .roriw)
  · rfl

end OpImm32

end AluIsa

/-! ## All encodings -/

/-- The opcode of a class. -/
def AluClass.opcode : AluClass → BitVec 7
  | .op => 0b0110011
  | .opImm => 0b0010011
  | .op32 => 0b0111011
  | .opImm32 => 0b0011011

/-- What the unit computes for an instruction word whose opcode is that of the class. -/
def aluOf (c : AluClass) (w : BitVec 32) (v1 v2 : Word) : Option Word :=
  aluNative c (decodeFields w).func3 (decodeFields w).func7 v1 v2 (decodeFields w).imm12Se

/-- The word gives the value of the instruction that it encodes, and a trap if it encodes none. -/
def AluImplements (c : AluClass) (w : BitVec 32) (v1 v2 : Word) : Prop :=
  (∀ i : Rv64.Instr, i.Encodes w → aluOf c w v1 v2 = some (i.value w v1 v2)) ∧
    ((∀ i : Rv64.Instr, ¬ i.Encodes w) → aluOf c w v1 v2 = none)

namespace AluIsa

variable {c : AluClass} {w : BitVec 32} (v1 v2 : Word)

theorem funct7_word (w : BitVec 32) : w.extractLsb' 25 7 = (w.extractLsb' 20 12).extractLsb' 5 7 :=
  (BitFields.extractLsb'_extractLsb' w (show 5 + 7 ≤ 12 by decide)).symm

/-- Every instruction but `zext.h` is there. -/
theorem aluOf_value (hop : (decodeFields w).opcode = c.opcode) {i : Rv64.Instr} (hne : i ≠ .op32 .zexth)
    (hi : i.Encodes w) : aluOf c w v1 v2 = some (i.value w v1 v2) := by
  obtain ⟨hopcode, hfunct3, hm⟩ := hi
  have hclass : c.opcode = i.opcode := hop.symm.trans hopcode
  have hfields : aluOf c w v1 v2 = aluNative c i.encoding.1 ((w.extractLsb' 20 12).extractLsb' 5 7) v1 v2
      (imm12Se (w.extractLsb' 20 12)) := by
    rw [← hfunct3, ← funct7_word]
    rfl
  rw [hfields]
  cases i with
  | op o =>
    cases c with
    | op => exact execAluOp_value v1 v2 o hm
    | opImm => cases hclass
    | op32 => cases hclass
    | opImm32 => cases hclass
  | opImm o =>
    cases c with
    | op => cases hclass
    | opImm => exact execOpImm_value v1 o hm
    | op32 => cases hclass
    | opImm32 => cases hclass
  | op32 o =>
    cases c with
    | op => cases hclass
    | opImm => cases hclass
    | op32 => exact execOp32_value v1 v2 o (fun h => hne (by rw [h])) hm
    | opImm32 => cases hclass
  | opImm32 o =>
    cases c with
    | op => cases hclass
    | opImm => cases hclass
    | op32 => cases hclass
    | opImm32 => exact execOpImm32_value v1 o hm

theorem aluOf_refused (hop : (decodeFields w).opcode = c.opcode) (hno : ∀ i : Rv64.Instr, ¬ i.Encodes w) :
    aluOf c w v1 v2 = none := by
  have hfields : aluOf c w v1 v2 = aluNative c (w.extractLsb' 12 3) ((w.extractLsb' 20 12).extractLsb' 5 7)
      v1 v2 (imm12Se (w.extractLsb' 20 12)) := by
    rw [← funct7_word]
    rfl
  rw [hfields]
  cases c with
  | op => exact execAluOp_refused v1 v2 fun o h => hno (.op o) ⟨hop, h⟩
  | opImm => exact execOpImm_refused v1 fun o h => hno (.opImm o) ⟨hop, h⟩
  | op32 => exact execOp32_refused v1 v2 fun o h => hno (.op32 o) ⟨hop, h⟩
  | opImm32 => exact execOpImm32_refused v1 fun o h => hno (.opImm32 o) ⟨hop, h⟩

theorem aluOf_zexth (hop : (decodeFields w).opcode = c.opcode) (hz : (Rv64.Instr.op32 .zexth).Encodes w) :
    aluOf c w v1 v2 = none := by
  obtain ⟨hopcode, hfunct3, hm⟩ := hz
  have htop : w.extractLsb' 20 12 = 0x080 := hm
  have hfunct7 : w.extractLsb' 25 7 = 0x04 := by
    rw [funct7_word, htop]
    decide
  have hclass : c.opcode = 0b0111011 := hop.symm.trans hopcode
  cases c with
  | op => cases hclass
  | opImm => cases hclass
  | op32 =>
    show execOp32 (w.extractLsb' 12 3) (w.extractLsb' 25 7) v1 v2 = none
    rw [hfunct7, hfunct3]
    rfl
  | opImm32 => cases hclass

end AluIsa

open AluIsa in
/-- The unit computes RV64IM with Zba, Zbb and Zbs, and traps on everything else, but for `zext.h`. -/
theorem alu_implements_iff (c : AluClass) (w : BitVec 32) (v1 v2 : Word)
    (hop : (decodeFields w).opcode = c.opcode) :
    AluImplements c w v1 v2 ↔ ¬ (Rv64.Instr.op32 .zexth).Encodes w := by
  constructor
  · rintro ⟨hvalue, _⟩ hz
    have h := hvalue _ hz
    rw [aluOf_zexth v1 v2 hop hz] at h
    cases h
  · intro hz
    refine ⟨fun i hi => aluOf_value v1 v2 hop ?_ hi, aluOf_refused v1 v2 hop⟩
    rintro rfl
    exact hz hi

/-- `add x3, x1, x2` of 5 and 7. -/
theorem alu_implements_add : AluImplements .op 0x002081B3 5 7 := by
  refine (alu_implements_iff .op 0x002081B3 5 7 (by decide)).mpr ?_
  rintro ⟨hop, -⟩
  exact absurd hop (by decide)

/-- `zext.h x3, x1` is an instruction of Zbb, and the unit traps on it. -/
theorem zexth_traps : ¬ ∀ (c : AluClass) (w : BitVec 32) (v1 v2 : Word),
    (decodeFields w).opcode = c.opcode → AluImplements c w v1 v2 := by
  intro h
  have hvalue := (h .op32 0x0800C1BB 0x12345 0 (by decide)).1 (.op32 .zexth)
    ⟨by decide, by decide, show (0x0800C1BB : BitVec 32).extractLsb' 20 12 = 0x080 by decide⟩
  exact absurd hvalue (by decide)

end Pyremu
