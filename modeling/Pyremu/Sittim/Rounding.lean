import Pyremu.Sittim.Paging
import Pyremu.Lib.Bits

/-!
# Rounding to pages and partitions

`align_up` and `align_down` as arithmetic on natural numbers. Rounding up wraps
for addresses in the last unit below `2 ^ 64`.
-/

namespace Pyremu.Sittim

section Align

variable {x y : Word} {n : Nat}

theorem toNat_sub_one (hy : y.toNat = 2 ^ n) : (y - 1).toNat = 2 ^ n - 1 := by
  have hpos : 1 ≤ 2 ^ n := Nat.one_le_two_pow
  have hle : (1 : Word) ≤ y := by
    rw [BitVec.le_def, hy]
    exact hpos
  rw [BitVec.toNat_sub_of_le hle, hy]
  rfl

theorem toNat_alignDown (x : Word) (hy : y.toNat = 2 ^ n) :
    (alignDown x y).toNat = x.toNat / 2 ^ n * 2 ^ n :=
  BitFields.toNat_and_not_mask (toNat_sub_one hy)

theorem toNat_alignUp (hy : y.toNat = 2 ^ n) (h : x.toNat + (2 ^ n - 1) < 2 ^ 64) :
    (alignUp x y).toNat = (x.toNat + (2 ^ n - 1)) / 2 ^ n * 2 ^ n := by
  have hsum : (x + y - 1).toNat = x.toNat + (2 ^ n - 1) := by
    rw [show x + y - 1 = x + (y - 1) by rw [BitVec.sub_eq_add_neg, BitVec.sub_eq_add_neg, BitVec.add_assoc],
      BitVec.toNat_add, toNat_sub_one hy, Nat.mod_eq_of_lt h]
  rw [alignUp, BitFields.toNat_and_not_mask (toNat_sub_one hy), hsum]

end Align

section Units

variable {x : Word}

theorem toNat_PAGE_SIZE : PAGE_SIZE.toNat = 2 ^ 12 := rfl

theorem toNat_CHUNK_2M_SIZE : CHUNK_2M_SIZE.toNat = 2 ^ 21 := rfl

theorem toNat_CHUNK_2M_PAGES : CHUNK_2M_PAGES.toNat = 2 ^ 9 := rfl

theorem toNat_UMODE_VA_LIMIT : UMODE_VA_LIMIT.toNat = 2 ^ 38 := rfl

theorem toNat_pageUp (h : x.toNat + 4095 < 2 ^ 64) :
    (alignUp x PAGE_SIZE).toNat = (x.toNat + 4095) / 4096 * 4096 :=
  toNat_alignUp toNat_PAGE_SIZE h

theorem toNat_chunkUp (h : x.toNat + 2097151 < 2 ^ 64) :
    (alignUp x CHUNK_2M_SIZE).toNat = (x.toNat + 2097151) / 2097152 * 2097152 :=
  toNat_alignUp toNat_CHUNK_2M_SIZE h

theorem toNat_pagesUp (h : x.toNat + 511 < 2 ^ 64) :
    (alignUp x CHUNK_2M_PAGES).toNat = (x.toNat + 511) / 512 * 512 :=
  toNat_alignUp toNat_CHUNK_2M_PAGES h

/-- Pages that cover `x` bytes. -/
theorem toNat_pageCount (h : x.toNat + 4095 < 2 ^ 64) :
    (alignUp x PAGE_SIZE >>> 12).toNat = (x.toNat + 4095) / 4096 := by
  rw [BitVec.toNat_ushiftRight, toNat_pageUp h, Nat.shiftRight_eq_div_pow]
  exact Nat.mul_div_cancel _ (by decide)

/-- Partitions that cover `x` bytes. -/
theorem toNat_chunkCount (h : x.toNat + 2097151 < 2 ^ 64) :
    (alignUp x CHUNK_2M_SIZE >>> 21).toNat = (x.toNat + 2097151) / 2097152 := by
  rw [BitVec.toNat_ushiftRight, toNat_chunkUp h, Nat.shiftRight_eq_div_pow]
  exact Nat.mul_div_cancel _ (by decide)

/-- Byte offset of page `i`. -/
theorem toNat_pageOffset {i : Nat} (h : i * 4096 < 2 ^ 64) :
    (BitVec.ofNat 64 i * PAGE_SIZE).toNat = i * 4096 := by
  rw [BitVec.toNat_mul, BitVec.toNat_ofNat, toNat_PAGE_SIZE, Nat.mod_mul_mod]
  exact Nat.mod_eq_of_lt h

theorem toNat_mul_PAGE_SIZE (h : x.toNat * 4096 < 2 ^ 64) : (x * PAGE_SIZE).toNat = x.toNat * 4096 := by
  rw [BitVec.toNat_mul, toNat_PAGE_SIZE]
  exact Nat.mod_eq_of_lt h

/-- Page `i` of a range that starts at `x`. -/
theorem toNat_add_pageOffset {i : Nat} (h : x.toNat + i * 4096 < 2 ^ 64) :
    (x + BitVec.ofNat 64 i * PAGE_SIZE).toNat = x.toNat + i * 4096 := by
  rw [BitVec.toNat_add, toNat_pageOffset (by omega)]
  exact Nat.mod_eq_of_lt h

end Units

end Pyremu.Sittim
