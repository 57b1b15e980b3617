import Mathlib.Data.Int.Bitwise
import Mathlib.Data.Nat.Size
import Mathlib.Data.Nat.Bits
import Mathlib.Tactic.Common

/-!
# Unbounded integers that stand for machine words

An interpreter written over unbounded integers cuts its results down to `w`
bits. Every operation on integers then has a fixed-width counterpart, and
`BitVec.ofInt w` carries the one to the other.
-/

namespace Unbounded

/-- The low `w` bits. -/
def mask (w : Nat) (x : Int) : Int := x % 2 ^ w

def shl (x : Int) (s : Nat) : Int := x * 2 ^ s

/-- The shift that rounds down. -/
def shr (x : Int) (s : Nat) : Int := x / 2 ^ s

/-- How many bits a nonnegative integer takes. -/
def bitLength (x : Int) : Nat := x.toNat.size

/-- How many ones a nonnegative integer has. -/
def bitCount (x : Int) : Nat := x.toNat.bits.count true

/-- The two's complement reading of the low `w` bits. -/
def sint (w : Nat) (x : Int) : Int :=
  if shr (mask w x) (w - 1) ≠ 0 then mask w x - 2 ^ w else mask w x

/-- Sign-extend from `b` bits and cut down to 64. -/
def sext (b : Nat) (x : Int) : Int :=
  mask 64 (mask (b - 1) x - Int.land x (2 ^ (b - 1)))

/-- Rotate the low `w` bits left. -/
def rol (w : Nat) (x : Int) (s : Nat) : Int :=
  if s % w ≠ 0 then mask w (Int.lor (shl (mask w x) (s % w)) (shr (mask w x) (w - s % w))) else mask w x

/-- Rotate the low `w` bits right. -/
def ror (w : Nat) (x : Int) (s : Nat) : Int :=
  if s % w ≠ 0 then mask w (Int.lor (shr (mask w x) (s % w)) (shl (mask w x) (w - s % w))) else mask w x

variable {w : Nat}

/-! ## Carrying integers to words -/

theorem mask_eq (w : Nat) (x : Int) : mask w x = ((BitVec.ofInt w x).toNat : Int) := by
  have hpos : (0 : Int) < 2 ^ w := Int.pow_pos (by decide)
  have hnn : (0 : Int) ≤ x % 2 ^ w := Int.emod_nonneg _ (Int.ne_of_gt hpos)
  have hcast : (((2 ^ w : Nat) : Int)) = 2 ^ w := by push_cast; rfl
  rw [mask, BitVec.toNat_ofInt, hcast, Int.toNat_of_nonneg hnn]

@[simp] theorem ofInt_toNat (x : BitVec w) : BitVec.ofInt w (x.toNat : Int) = x := by
  rw [BitVec.ofInt_natCast, BitVec.ofNat_toNat, BitVec.setWidth_eq]

theorem mask_toNat (x : BitVec w) : mask w (x.toNat : Int) = x.toNat := by
  rw [mask_eq, ofInt_toNat]

@[simp] theorem mask_mask (x : Int) : mask w (mask w x) = mask w x := by
  rw [mask_eq w x, mask_toNat]

theorem ror_mask (x : Int) (s : Nat) : ror w (mask w x) s = ror w x s := by
  rw [ror, ror, mask_mask]

theorem getLsbD_ofInt (x : Int) (k : Nat) :
    (BitVec.ofInt w x).getLsbD k = (decide (k < w) && x.testBit k) := by
  cases x with
  | ofNat m => exact BitVec.getLsbD_ofNat w m k
  | negSucc m =>
    rw [BitVec.ofInt_negSucc_eq_not_ofNat, BitVec.getLsbD_not, BitVec.getLsbD_ofNat, Int.testBit]
    by_cases hk : k < w <;> simp [hk]

theorem ofInt_lor (x y : Int) : BitVec.ofInt w (Int.lor x y) = BitVec.ofInt w x ||| BitVec.ofInt w y := by
  apply BitVec.eq_of_getLsbD_eq
  intro k hk
  rw [BitVec.getLsbD_or, getLsbD_ofInt, getLsbD_ofInt, getLsbD_ofInt, Int.testBit_lor]
  simp [hk]

theorem ofInt_land (x y : Int) : BitVec.ofInt w (Int.land x y) = BitVec.ofInt w x &&& BitVec.ofInt w y := by
  apply BitVec.eq_of_getLsbD_eq
  intro k hk
  rw [BitVec.getLsbD_and, getLsbD_ofInt, getLsbD_ofInt, getLsbD_ofInt, Int.testBit_land]
  simp [hk]

theorem ofInt_xor (x y : Int) : BitVec.ofInt w (Int.xor x y) = BitVec.ofInt w x ^^^ BitVec.ofInt w y := by
  apply BitVec.eq_of_getLsbD_eq
  intro k hk
  rw [BitVec.getLsbD_xor, getLsbD_ofInt, getLsbD_ofInt, getLsbD_ofInt, Int.testBit_lxor]
  simp [hk]

theorem ofInt_lnot (x : Int) : BitVec.ofInt w (Int.lnot x) = ~~~(BitVec.ofInt w x) := by
  apply BitVec.eq_of_getLsbD_eq
  intro k hk
  rw [BitVec.getLsbD_not, getLsbD_ofInt, getLsbD_ofInt, Int.testBit_lnot]
  simp [hk]

theorem ofInt_sub (x y : Int) : BitVec.ofInt w (x - y) = BitVec.ofInt w x - BitVec.ofInt w y := by
  rw [Int.sub_eq_add_neg, BitVec.ofInt_add, BitVec.ofInt_neg, BitVec.sub_eq_add_neg]

theorem ofInt_two_pow (s : Nat) : BitVec.ofInt w (2 ^ s) = BitVec.twoPow w s := by
  have hpow : (2 : Int) ^ s = ((2 ^ s : Nat) : Int) := by push_cast; rfl
  rw [hpow, BitVec.ofInt_natCast]
  apply BitVec.eq_of_toNat_eq
  rw [BitVec.toNat_ofNat, BitVec.toNat_twoPow]

theorem ofInt_shl (x : Int) (s : Nat) : BitVec.ofInt w (shl x s) = BitVec.ofInt w x <<< s := by
  rw [shl, BitVec.ofInt_mul, ofInt_two_pow, BitVec.shiftLeft_eq_mul_twoPow]

theorem shr_toNat (x : BitVec w) (s : Nat) : shr (x.toNat : Int) s = ((x >>> s).toNat : Int) := by
  rw [shr, BitVec.toNat_ushiftRight, Nat.shiftRight_eq_div_pow]
  push_cast
  rfl

theorem ofInt_shr_toInt (x : BitVec w) (s : Nat) : BitVec.ofInt w (shr x.toInt s) = x.sshiftRight s := by
  rw [BitVec.sshiftRight_eq, Int.shiftRight_eq_div_pow, shr]
  push_cast
  rfl

theorem rol_toNat (x : BitVec w) (s : Nat) : rol w (x.toNat : Int) s = ((x.rotateLeft s).toNat : Int) := by
  rw [rol, mask_toNat, BitVec.rotateLeft, BitVec.rotateLeftAux]
  by_cases hs : s % w = 0
  · have hz : x >>> w = 0#w := BitVec.ushiftRight_eq_zero (Nat.le_refl w)
    rw [if_neg (by simp [hs]), hs, Nat.sub_zero, hz, BitVec.shiftLeft_zero, BitVec.or_zero]
  · rw [if_pos hs, mask_eq, ofInt_lor, ofInt_shl, ofInt_toNat, shr_toNat, ofInt_toNat]

theorem ror_toNat (x : BitVec w) (s : Nat) : ror w (x.toNat : Int) s = ((x.rotateRight s).toNat : Int) := by
  rw [ror, mask_toNat, BitVec.rotateRight, BitVec.rotateRightAux]
  by_cases hs : s % w = 0
  · rw [if_neg (by simp [hs]), hs]
    simp
  · rw [if_pos hs, mask_eq, ofInt_lor, ofInt_shl, ofInt_toNat, shr_toNat, ofInt_toNat]

/-! ## Signs -/

theorem sint_toNat (hw : 0 < w) (x : BitVec w) : sint w (x.toNat : Int) = x.toInt := by
  have hx := x.isLt
  have hpow : 2 ^ w = 2 * 2 ^ (w - 1) := by rw [← Nat.pow_succ', Nat.succ_eq_add_one, Nat.sub_add_cancel hw]
  have hdiv : shr (x.toNat : Int) (w - 1) = ((x.toNat / 2 ^ (w - 1) : Nat) : Int) := by
    rw [shr]
    push_cast
    rfl
  rw [sint, mask_toNat, hdiv, BitVec.toInt_eq_toNat_cond]
  by_cases h : x.toNat < 2 ^ (w - 1)
  · have hz : x.toNat / 2 ^ (w - 1) = 0 := Nat.div_eq_of_lt h
    rw [if_neg (by simp [hz]), if_pos (by omega)]
  · have hz : x.toNat / 2 ^ (w - 1) ≠ 0 := by
      have := Nat.div_pos (Nat.le_of_not_lt h) (Nat.two_pow_pos (w - 1))
      omega
    rw [if_pos (by exact_mod_cast hz), if_neg (by omega)]
    push_cast
    rfl

theorem ofInt_sint (hw : 0 < w) (x : Int) : BitVec.ofInt w (sint w x) = BitVec.ofInt w x := by
  have hmask : sint w x = sint w (mask w x) := by rw [sint, sint, mask_mask]
  rw [hmask, mask_eq, sint_toNat hw, BitVec.ofInt_toInt]

theorem sext_natCast {b : Nat} (hb : 0 < b) (n : Nat) :
    sext b (n : Int) = (((BitVec.ofNat b n).signExtend 64).toNat : Int) := by
  obtain ⟨k, rfl⟩ := Nat.exists_eq_add_of_lt hb
  rw [Nat.zero_add]
  have hpow : 2 ^ (k + 1) = 2 * 2 ^ k := by rw [Nat.pow_succ, Nat.mul_comm]
  have hand : Int.land (n : Int) (2 ^ k) = (((n.testBit k).toNat * 2 ^ k : Nat) : Int) := by
    have h : Int.land (n : Int) ((2 ^ k : Nat) : Int) = ((n &&& 2 ^ k : Nat) : Int) := rfl
    rw [← Nat.and_two_pow, ← h]
    push_cast
    rfl
  have hmod : n % 2 ^ (k + 1) = n % 2 ^ k + 2 ^ k * (n.testBit k).toNat := by
    rw [Nat.mod_pow_succ, Nat.testBit_eq_decide_div_mod_eq]
    rcases Nat.mod_two_eq_zero_or_one (n / 2 ^ k) with h | h <;> simp [h]
  have hlt := Nat.mod_lt n (Nat.two_pow_pos k)
  have hint : mask k (n : Int) - Int.land (n : Int) (2 ^ k) = (BitVec.ofNat (k + 1) n).toInt := by
    rw [hand, BitVec.toInt_eq_toNat_cond, BitVec.toNat_ofNat, hmod, mask]
    have hcast : (n : Int) % 2 ^ k = ((n % 2 ^ k : Nat) : Int) := by push_cast; rfl
    rw [hcast]
    cases n.testBit k
    · simp only [Bool.toNat_false]
      rw [if_pos (by omega)]
      omega
    · simp only [Bool.toNat_true]
      rw [if_neg (by omega)]
      omega
  rw [sext, Nat.add_sub_cancel, hint, mask_eq]
  rfl

/-! ## Counting bits -/

theorem bitLength_toNat (hw : 0 < w) (x : BitVec w) : bitLength (x.toNat : Int) + x.clz.toNat = w := by
  have hle : x.clz.toNat ≤ w := by
    have h := BitVec.clz_le (x := x)
    have hlt : w < 2 ^ w := Nat.lt_two_pow_self
    rw [BitVec.le_def, BitVec.natCast_eq_ofNat, BitVec.toNat_ofNat, Nat.mod_eq_of_lt hlt] at h
    exact h
  have hupper : x.toNat.size ≤ w - x.clz.toNat := Nat.size_le.mpr BitVec.toNat_lt_two_pow_sub_clz
  rw [bitLength, Int.toNat_natCast]
  by_cases hx : x = 0#w
  · have hclz : x.clz.toNat = w := by
      have h := BitVec.clz_eq_iff_eq_zero.mpr hx
      have hlt : w < 2 ^ w := Nat.lt_two_pow_self
      rw [h, BitVec.natCast_eq_ofNat, BitVec.toNat_ofNat, Nat.mod_eq_of_lt hlt]
    omega
  · have hlower := Nat.lt_size.mpr (BitVec.two_pow_sub_clz_le_toNat_of_ne_zero hw hx)
    have hclz : x.clz.toNat < w := by
      have h := BitVec.clz_lt_iff_ne_zero.mpr hx
      have hlt : w < 2 ^ w := Nat.lt_two_pow_self
      rw [BitVec.lt_def, BitVec.natCast_eq_ofNat, BitVec.toNat_ofNat, Nat.mod_eq_of_lt hlt] at h
      exact h
    omega

/-- `u & -u` keeps the lowest one only. -/
theorem land_neg {u t : Nat} (ht : u.testBit t = true) (hlow : ∀ j < t, u.testBit j = false) :
    Int.land (u : Int) (-(u : Int)) = ((2 ^ t : Nat) : Int) := by
  have hlow0 : u % 2 ^ t = 0 := by
    apply Nat.eq_of_testBit_eq
    intro j
    rw [Nat.testBit_mod_two_pow, Nat.zero_testBit]
    by_cases hj : j < t
    · rw [hlow j hj, Bool.and_false]
    · simp [hj]
  have hu : 2 ^ t * (u / 2 ^ t) = u := Nat.mul_div_cancel' (Nat.dvd_of_mod_eq_zero hlow0)
  have hodd : u / 2 ^ t % 2 = 1 := by
    rw [Nat.testBit_eq_decide_div_mod_eq] at ht
    exact of_decide_eq_true ht
  generalize u / 2 ^ t = m at hu hodd
  have hpos := Nat.two_pow_pos t
  have hm : 0 < m := by omega
  obtain ⟨k, hk⟩ : ∃ k, u = k + 1 := by
    have : 0 < 2 ^ t * m := Nat.mul_pos hpos hm
    exact ⟨u - 1, by omega⟩
  have hpred : k = 2 ^ t * (m - 1) + (2 ^ t - 1) := by
    have : 2 ^ t * m = 2 ^ t * (m - 1) + 2 ^ t := by
      rw [← Nat.mul_succ, Nat.succ_eq_add_one, Nat.sub_add_cancel hm]
    omega
  have hland : Int.land (u : Int) (-(u : Int)) = ((Nat.ldiff u k : Nat) : Int) := by
    rw [hk]
    rfl
  rw [hland]
  congr 1
  apply Nat.eq_of_testBit_eq
  intro j
  have hu0 : u = 2 ^ t * m + 0 := hu.symm
  rw [Nat.testBit_ldiff, hpred, Nat.testBit_two_pow_mul_add _ (by omega)]
  conv_lhs => rw [hu0, Nat.testBit_two_pow_mul_add _ hpos]
  rw [Nat.testBit_two_pow]
  rcases Nat.lt_trichotomy j t with hj | rfl | hj
  · rw [if_pos hj, Nat.zero_testBit]
    simp [Nat.ne_of_gt hj]
  · rw [if_neg (Nat.lt_irrefl _), if_neg (Nat.lt_irrefl _), Nat.sub_self, Nat.testBit_zero,
      Nat.testBit_zero]
    have hm1 : (m - 1) % 2 = 0 := by omega
    simp [hodd, hm1]
  · rw [if_neg (by omega), if_neg (by omega)]
    obtain ⟨i, hi⟩ : ∃ i, j - t = i + 1 := ⟨j - t - 1, by omega⟩
    have hhalf : (m - 1) / 2 = m / 2 := by omega
    rw [hi, Nat.testBit_succ, Nat.testBit_succ, hhalf]
    simp [Nat.ne_of_lt hj]

/-- The ones of a number of `n` bits, by position. -/
theorem count_bits {n u : Nat} (h : u < 2 ^ n) :
    u.bits.count true = (List.range n).countP u.testBit := by
  induction n generalizing u with
  | zero =>
    have hz : u = 0 := by omega
    subst hz
    rfl
  | succ n ih =>
    rw [List.range_succ_eq_map, List.countP_cons, List.countP_map]
    obtain ⟨b, v, rfl⟩ : ∃ b v, u = Nat.bit b v := ⟨_, _, (Nat.bit_bodd_div2 u).symm⟩
    have hv : v < 2 ^ n := Nat.bit_lt_two_pow_succ_iff.mp h
    have htail : (Nat.bit b v).testBit ∘ Nat.succ = v.testBit := by
      funext i
      exact Nat.testBit_bit_succ i b v
    rw [htail, Nat.testBit_bit_zero, ← ih hv]
    by_cases hz : v = 0 ∧ b = false
    · obtain ⟨rfl, rfl⟩ := hz
      rfl
    · rw [Nat.bits_append_bit v b fun hv0 => by
        cases b with
        | false => exact absurd ⟨hv0, rfl⟩ hz
        | true => rfl]
      rw [List.count_cons]
      cases b <;> rfl

theorem bitCount_toNat (x : BitVec w) :
    bitCount (x.toNat : Int) = (List.range w).countP x.getLsbD := by
  rw [bitCount, Int.toNat_natCast, count_bits x.isLt]
  rfl

/-- The position of the lowest one. -/
theorem bitLength_land_neg {x : BitVec w} (hx : x ≠ 0#w) :
    bitLength (Int.land (x.toNat : Int) (-(x.toNat : Int))) = x.ctz.toNat + 1 := by
  rw [land_neg (BitVec.getLsbD_true_ctz_of_ne_zero hx)
    fun j hj => BitVec.getLsbD_false_of_lt_ctz hj, bitLength, Int.toNat_natCast, Nat.size_pow]

theorem ctz_zero : (0#w).ctz.toNat = w := by
  have hlt : w < 2 ^ w := Nat.lt_two_pow_self
  have h : (0#w).clz = w := BitVec.clz_eq_iff_eq_zero.mpr rfl
  rw [BitVec.ctz_eq_reverse_clz, (BitVec.reverse_eq_zero_iff (x := 0#w)).mpr rfl, h,
    BitVec.natCast_eq_ofNat, BitVec.toNat_ofNat, Nat.mod_eq_of_lt hlt]

end Unbounded
