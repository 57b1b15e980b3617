import Mathlib.Algebra.Order.Ring.Nat
import Mathlib.Tactic.Common

/-!
# Fields of bit vectors

Agreement of two vectors on a mask is agreement on its bits. Extending a vector
twice is extending it once, and a field of a field is a field.
-/

namespace BitFields

theorem and_mask_congr {n : Nat} {a b m : BitVec n}
    (h : ∀ i, m.getLsbD i = true → a.getLsbD i = b.getLsbD i) : a &&& m = b &&& m := by
  apply BitVec.eq_of_getLsbD_eq
  intro i _
  rw [BitVec.getLsbD_and, BitVec.getLsbD_and]
  cases hm : m.getLsbD i with
  | false => simp
  | true => rw [h i hm]

/-- The bits of a mask are already set. -/
theorem or_eq_self_iff {n : Nat} {x m : BitVec n} :
    x ||| m = x ↔ ∀ i, m.getLsbD i = true → x.getLsbD i = true := by
  constructor
  · intro h i hm
    rw [← h, BitVec.getLsbD_or, hm, Bool.or_true]
  · intro h
    apply BitVec.eq_of_getLsbD_eq
    intro i _
    rw [BitVec.getLsbD_or]
    cases hm : m.getLsbD i with
    | false => rw [Bool.or_false]
    | true => rw [h i hm, Bool.or_true]

theorem and_twoPow_eq_zero {n i : Nat} {x : BitVec n} (hi : i < n) :
    x &&& BitVec.twoPow n i = 0#n ↔ x.getLsbD i = false := by
  rw [BitVec.and_twoPow]
  cases x.getLsbD i with
  | false => simp
  | true =>
    have hne : BitVec.twoPow n i ≠ 0#n := by
      intro h
      have := congrArg (fun v => v.getLsbD i) h
      simp [hi] at this
    simpa using hne

theorem or_twoPow_of_getLsbD {n i : Nat} {x : BitVec n} (h : x.getLsbD i = true) :
    x ||| BitVec.twoPow n i = x := by
  rw [or_eq_self_iff]
  intro j hj
  rw [BitVec.getLsbD_twoPow] at hj
  simp only [Bool.and_eq_true, decide_eq_true_eq] at hj
  rw [← hj.2, h]

/-- A write through a mask takes the bits of the mask from `v` and the rest from `x`. -/
theorem getLsbD_masked_write {n i : Nat} (x v m : BitVec n) (hi : i < n) :
    ((x &&& ~~~m) ||| (v &&& m)).getLsbD i = if m.getLsbD i then v.getLsbD i else x.getLsbD i := by
  rw [BitVec.getLsbD_or, BitVec.getLsbD_and, BitVec.getLsbD_and, BitVec.getLsbD_not]
  cases m.getLsbD i <;> simp [hi]

/-- The second of two writes through a mask hides the first. -/
theorem masked_write_twice {n : Nat} (x v w m : BitVec n) :
    ((((x &&& ~~~m) ||| (v &&& m)) &&& ~~~m) ||| (w &&& m)) = (x &&& ~~~m) ||| (w &&& m) := by
  apply BitVec.eq_of_getLsbD_eq
  intro i hi
  rw [getLsbD_masked_write _ _ _ hi, getLsbD_masked_write _ _ _ hi, getLsbD_masked_write _ _ _ hi]
  split_ifs <;> rfl

/-- A field holds its largest value when all its bits are set. -/
theorem extractLsb'_eq_allOnes_iff {n k m : Nat} (x : BitVec n) :
    x.extractLsb' k m = BitVec.allOnes m ↔ ∀ i < m, x.getLsbD (k + i) = true := by
  constructor
  · intro h i hi
    have hb := congrArg (fun f => f.getLsbD i) h
    simpa [hi] using hb
  · intro h
    apply BitVec.eq_of_getLsbD_eq
    intro i hi
    simp [hi, h i hi]

/-- Sign extension in two steps. -/
theorem signExtend_signExtend {w v u : Nat} (x : BitVec w) (hwv : w ≤ v) (hvu : v ≤ u) :
    (x.signExtend v).signExtend u = x.signExtend u := by
  apply BitVec.eq_of_toInt_eq
  rw [BitVec.toInt_signExtend_of_le hvu, BitVec.toInt_signExtend_of_le hwv,
    BitVec.toInt_signExtend_of_le (Nat.le_trans hwv hvu)]

/-- A vector that was widened with zeros has no sign. -/
theorem signExtend_setWidth {w v u : Nat} (x : BitVec w) (hwv : w < v) :
    (x.setWidth v).signExtend u = x.setWidth u := by
  have hmsb : (x.setWidth v).msb = false := by
    rw [BitVec.msb_eq_getLsbD_last, BitVec.getLsbD_setWidth, BitVec.getLsbD_of_ge x _ (by omega),
      Bool.and_false]
  rw [BitVec.signExtend_eq_setWidth_of_msb_false hmsb, BitVec.setWidth_setWidth (by omega)]

/-- The low field of a sign-extended vector. -/
theorem setWidth_signExtend_append {n m u : Nat} (f : BitVec n) (x : BitVec m) (h : m ≤ u) :
    ((f ++ x).signExtend u).setWidth m = x := by
  apply BitVec.eq_of_getLsbD_eq
  intro i hi
  have hnm : i < n + m := by omega
  have hu : i < u := by omega
  rw [BitVec.getLsbD_setWidth, BitVec.getLsbD_signExtend, BitVec.getLsbD_append]
  simp [hi, hnm, hu]

/-- The implicit low bit stays clear under sign extension. -/
theorem getLsbD_zero_signExtend_append {n u : Nat} (x : BitVec n) :
    ((x ++ 0#1).signExtend u).getLsbD 0 = false := by
  rw [BitVec.getLsbD_signExtend, BitVec.getLsbD_append]
  simp

/-! ### A word joined from two fields -/

section Join

variable {w n : Nat} {x f m : BitVec w}

theorem toNat_and_mask (h : m.toNat = 2 ^ n - 1) : (x &&& m).toNat = x.toNat % 2 ^ n := by
  rw [BitVec.toNat_and, h, Nat.and_two_pow_sub_one_eq_mod]

theorem toNat_and_not_mask (h : m.toNat = 2 ^ n - 1) :
    (x &&& ~~~m).toNat = x.toNat / 2 ^ n * 2 ^ n := by
  have hbits : x &&& ~~~m = (x >>> n) <<< n := by
    apply BitVec.eq_of_getLsbD_eq
    intro i hi
    have hm : m.getLsbD i = decide (i < n) := by
      rw [BitVec.getLsbD, h, Nat.testBit_two_pow_sub_one]
    rw [BitVec.getLsbD_and, BitVec.getLsbD_not, hm, BitVec.getLsbD_shiftLeft, BitVec.getLsbD_ushiftRight]
    by_cases hin : i < n
    · simp [hin]
    · simp [hin, hi, show n + (i - n) = i by omega]
  rw [hbits, BitVec.toNat_shiftLeft, BitVec.toNat_ushiftRight, Nat.shiftLeft_eq, Nat.shiftRight_eq_div_pow]
  exact Nat.mod_eq_of_lt (Nat.lt_of_le_of_lt (Nat.div_mul_le_self _ _) x.isLt)

theorem toNat_shiftLeft_or (hx : x.toNat * 2 ^ n < 2 ^ w) (hf : f.toNat < 2 ^ n) :
    (x <<< n ||| f).toNat = x.toNat * 2 ^ n + f.toNat := by
  rw [BitVec.toNat_or, BitVec.toNat_shiftLeft, Nat.shiftLeft_eq, Nat.mod_eq_of_lt hx,
    ← Nat.shiftLeft_eq, ← Nat.shiftLeft_add_eq_or_of_lt hf]

theorem shiftLeft_or_ushiftRight (hx : x.toNat * 2 ^ n < 2 ^ w) (hf : f.toNat < 2 ^ n) :
    (x <<< n ||| f) >>> n = x := by
  apply BitVec.eq_of_toNat_eq
  rw [BitVec.toNat_ushiftRight, toNat_shiftLeft_or hx hf, Nat.shiftRight_eq_div_pow,
    Nat.mul_comm, Nat.mul_add_div (Nat.two_pow_pos n), Nat.div_eq_of_lt hf, Nat.add_zero]

theorem shiftLeft_or_and (hm : m.toNat < 2 ^ n) : (x <<< n ||| f) &&& m = f &&& m := by
  apply and_mask_congr
  intro i hi
  have hin : i < n := by
    by_contra hge
    rw [BitVec.getLsbD, Nat.testBit_lt_two_pow (Nat.lt_of_lt_of_le hm (Nat.pow_le_pow_right (by decide) (by omega)))] at hi
    cases hi
  rw [BitVec.getLsbD_or, BitVec.getLsbD_shiftLeft]
  simp [hin]

end Join

/-- A field of a field. -/
theorem extractLsb'_extractLsb' {n a k b m : Nat} (x : BitVec n) (h : b + m ≤ k) :
    (x.extractLsb' a k).extractLsb' b m = x.extractLsb' (a + b) m := by
  apply BitVec.eq_of_getLsbD_eq
  intro i hi
  have hk : b + i < k := by omega
  simp [hi, hk, Nat.add_assoc]

theorem setWidth_eq_zero_iff {n u : Nat} (x : BitVec n) (h : n ≤ u) :
    x.setWidth u = 0#u ↔ x = 0#n := by
  constructor
  · intro hx
    rw [← BitVec.setWidth_eq x, ← BitVec.setWidth_setWidth (v := u) (by omega), hx]
    exact BitVec.setWidth_zero n u
  · rintro rfl
    exact BitVec.setWidth_zero u n

theorem signExtend_eq_zero_iff {n u : Nat} (x : BitVec n) (h : n ≤ u) :
    x.signExtend u = 0#u ↔ x = 0#n := by
  constructor
  · intro hx
    apply BitVec.eq_of_toInt_eq
    rw [← BitVec.toInt_signExtend_of_le h, hx, BitVec.toInt_zero, BitVec.toInt_zero]
  · rintro rfl
    apply BitVec.eq_of_toInt_eq
    rw [BitVec.toInt_signExtend_of_le h, BitVec.toInt_zero, BitVec.toInt_zero]

end BitFields
