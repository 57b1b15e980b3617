import Mathlib.Data.BitVec
import Mathlib.Logic.Function.Basic

/-!
# Ring buffers with indices that wrap

Both indices count modulo `2 ^ w` and only ever grow; a cell is an index modulo
the capacity. Where the capacity divides `2 ^ w` the ring is a queue, across the
wrap as well.
-/

structure RingBuf (α : Type*) (w : Nat) where
  cap : Nat
  cells : Nat → α
  wr : BitVec w
  rd : BitVec w

namespace RingBuf

variable {α : Type*} {w : Nat}

section Defs

variable (r : RingBuf α w)

def used : Nat := (r.wr - r.rd).toNat

def free : Nat := r.cap - r.used

/-- The elements from the reading index up to the writing index. -/
def contents : List α := (List.range r.used).map fun j => r.cells ((r.rd + BitVec.ofNat w j).toNat % r.cap)

def push (a : α) : RingBuf α w :=
  { r with cells := Function.update r.cells (r.wr.toNat % r.cap) a, wr := r.wr + 1 }

def pop (n : Nat) : RingBuf α w := { r with rd := r.rd + BitVec.ofNat w n }

/-- The capacity divides the range of the indices and is less. -/
structure Fits : Prop where
  dvd : r.cap ∣ 2 ^ w
  lt : r.cap < 2 ^ w
  room : r.used ≤ r.cap

end Defs

variable {r : RingBuf α w} {n : Nat} {a : α}

theorem Fits.pos (h : r.Fits) : 0 < r.cap := Nat.pos_of_dvd_of_pos h.dvd (Nat.two_pow_pos w)

theorem length_contents (r : RingBuf α w) : r.contents.length = r.used := by
  rw [contents, List.length_map, List.length_range]

/-- An index modulo the capacity, whether it has wrapped or not. -/
theorem cell_eq (h : r.cap ∣ 2 ^ w) (x : BitVec w) (j : Nat) :
    (x + BitVec.ofNat w j).toNat % r.cap = (x.toNat + j) % r.cap := by
  rw [BitVec.toNat_add, BitVec.toNat_ofNat, Nat.add_mod_mod, Nat.mod_mod_of_dvd _ h]

/-- The writing index is the reading index with what is used. -/
theorem wr_eq (r : RingBuf α w) : r.wr = r.rd + BitVec.ofNat w r.used := by
  rw [used, BitVec.ofNat_toNat, BitVec.setWidth_eq, BitVec.add_comm, BitVec.sub_add_cancel]

theorem used_push (h : r.Fits) (hfree : r.used < r.cap) : (r.push a).used = r.used + 1 := by
  have hlt := h.lt
  have hone : 1 < 2 ^ w := by omega
  have hdiff : r.wr + 1 - r.rd = r.wr - r.rd + 1 := by
    rw [BitVec.sub_eq_add_neg, BitVec.sub_eq_add_neg, BitVec.add_assoc, BitVec.add_assoc,
      BitVec.add_comm 1]
  change (r.wr + 1 - r.rd).toNat = _
  rw [hdiff, BitVec.toNat_add]
  change (r.used + (1 : BitVec w).toNat) % 2 ^ w = _
  have h1 : (1 : BitVec w).toNat = 1 := by
    rw [BitVec.ofNat_eq_ofNat, BitVec.toNat_ofNat, Nat.mod_eq_of_lt hone]
  rw [h1, Nat.mod_eq_of_lt (by omega)]

theorem used_pop (hn : n ≤ r.used) : (r.pop n).used = r.used - n := by
  have hlt : r.used < 2 ^ w := (r.wr - r.rd).isLt
  have hdiff : r.wr - (r.rd + BitVec.ofNat w n) = r.wr - r.rd - BitVec.ofNat w n := by
    rw [BitVec.sub_eq_add_neg, BitVec.sub_eq_add_neg, BitVec.sub_eq_add_neg, BitVec.neg_add, BitVec.sub_eq_add_neg,
      BitVec.add_assoc]
  have hle : BitVec.ofNat w n ≤ r.wr - r.rd := by
    rw [BitVec.le_def, BitVec.toNat_ofNat, Nat.mod_eq_of_lt (by omega)]
    exact hn
  change (r.wr - (r.rd + BitVec.ofNat w n)).toNat = _
  rw [hdiff, BitVec.toNat_sub_of_le hle, BitVec.toNat_ofNat, Nat.mod_eq_of_lt (by omega)]
  rfl

theorem contents_push (h : r.Fits) (hfree : r.used < r.cap) (a : α) : (r.push a).contents = r.contents ++ [a] := by
  have hcap := h.pos
  have hlast : (r.push a).cells ((r.rd + BitVec.ofNat w r.used).toNat % r.cap) = a := by
    rw [← wr_eq]
    exact Function.update_self _ _ _
  rw [contents, used_push h hfree, List.range_succ, List.map_append]
  congr 1
  · apply List.map_congr_left
    intro j hj
    rw [List.mem_range] at hj
    apply Function.update_of_ne
    -- two places less than the capacity apart
    intro heq
    have hmod : (r.rd.toNat + j) ≡ (r.rd.toNat + r.used) [MOD r.cap] := by
      rw [Nat.ModEq, ← cell_eq h.dvd, ← cell_eq h.dvd, ← wr_eq]
      exact heq
    have hju := Nat.ModEq.add_left_cancel' r.rd.toNat hmod
    rw [Nat.ModEq, Nat.mod_eq_of_lt (by omega), Nat.mod_eq_of_lt hfree] at hju
    omega
  · exact congrArg (fun x => [x]) hlast

theorem contents_pop (hn : n ≤ r.used) : (r.pop n).contents = r.contents.drop n := by
  rw [contents, used_pop hn, contents, ← List.map_drop]
  apply List.ext_getElem?
  intro i
  rw [List.getElem?_map, List.getElem?_map, List.getElem?_drop]
  by_cases hi : i < r.used - n
  · rw [List.getElem?_range hi, List.getElem?_range (by omega)]
    have hidx : r.rd + BitVec.ofNat w n + BitVec.ofNat w i = r.rd + BitVec.ofNat w (n + i) := by
      rw [BitVec.add_assoc, BitVec.ofNat_add]
    exact congrArg (fun x => some (r.cells (BitVec.toNat x % r.cap))) hidx
  · rw [List.getElem?_eq_none (by rw [List.length_range]; omega),
      List.getElem?_eq_none (by rw [List.length_range]; omega)]
    rfl

theorem Fits.push (h : r.Fits) (hfree : r.used < r.cap) : (r.push a).Fits :=
  ⟨h.dvd, h.lt, by rw [used_push h hfree]; exact hfree⟩

theorem Fits.pop (h : r.Fits) (hn : n ≤ r.used) : (r.pop n).Fits :=
  ⟨h.dvd, h.lt, by rw [used_pop hn]; exact (Nat.sub_le _ _).trans h.room⟩

/-- What has been written and read, and what is still inside. -/
theorem take_append_contents_pop (hn : n ≤ r.used) : r.contents.take n ++ (r.pop n).contents = r.contents := by
  rw [contents_pop hn, List.take_append_drop]

end RingBuf
