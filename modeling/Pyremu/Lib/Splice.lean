import Mathlib.Data.List.Basic
import Mathlib.Data.List.Range
import Mathlib.Tactic.Common

/-!
# Slices of a store and unbounded sequences

A slice is what a store holds in a range. Splicing puts a piece into a sequence
at any offset, filling a gap before it.
-/

namespace Splice

variable {α : Type*}

/-- What the store holds in the `n` cells from `off`. -/
def slice (d : Nat → α) (off n : Nat) : List α := (List.range n).map fun i => d (off + i)

/-- Put `buf` at `off`, after as many `z` as are missing before it. -/
def splice (z : α) (old : List α) (off : Nat) (buf : List α) : List α :=
  (old.take off ++ List.replicate (off - old.length) z) ++ (buf ++ old.drop (off + buf.length))

variable {d d' : Nat → α} {off off' n : Nat} {z : α} {old buf : List α}

theorem slice_length : (slice d off n).length = n := by
  rw [slice, List.length_map, List.length_range]

theorem getElem?_slice (i : Nat) : (slice d off n)[i]? = if i < n then some (d (off + i)) else none := by
  rw [slice, List.getElem?_map]
  by_cases hi : i < n
  · rw [List.getElem?_range hi, if_pos hi]
    rfl
  · rw [if_neg hi, List.getElem?_eq_none (by rw [List.length_range]; omega)]
    rfl

theorem slice_congr (h : ∀ i < n, d (off + i) = d' (off' + i)) : slice d off n = slice d' off' n := by
  apply List.map_congr_left
  intro i hi
  exact h i (List.mem_range.mp hi)

theorem slice_zero : slice d off 0 = [] := rfl

theorem slice_take {m : Nat} (h : m ≤ n) : (slice d off n).take m = slice d off m := by
  rw [slice, ← List.map_take, List.take_range, Nat.min_eq_left h]
  rfl

theorem slice_drop_take (m k : Nat) : ((slice d off n).drop m).take k = slice d (off + m) (min (n - m) k) := by
  apply List.ext_getElem?
  intro i
  rw [List.getElem?_take, List.getElem?_drop, getElem?_slice, getElem?_slice]
  by_cases hk : i < k
  · rw [if_pos hk, Nat.add_assoc]
    by_cases hi : m + i < n
    · rw [if_pos hi, if_pos (by omega)]
    · rw [if_neg hi, if_neg (by omega)]
  · rw [if_neg hk, if_neg (by omega)]

theorem getElem?_splice (i : Nat) : (splice z old off buf)[i]? =
    if i < off then some (old.getD i z) else if i < off + buf.length then buf[i - off]? else old[i]? := by
  have hlen : (old.take off ++ List.replicate (off - old.length) z).length = off := by
    rw [List.length_append, List.length_take, List.length_replicate]
    omega
  rw [splice]
  by_cases hi : i < off
  · rw [if_pos hi, List.getElem?_append_left (by omega), List.getD_eq_getElem?_getD]
    by_cases hc : i < old.length
    · rw [List.getElem?_append_left (by rw [List.length_take]; omega), List.getElem?_take, if_pos hi,
        List.getElem?_eq_getElem hc]
      rfl
    · rw [List.getElem?_append_right (by rw [List.length_take]; omega), List.getElem?_replicate,
        if_pos (by rw [List.length_take]; omega), List.getElem?_eq_none (by omega)]
      rfl
  · rw [if_neg hi, List.getElem?_append_right (by omega), hlen]
    by_cases hb : i < off + buf.length
    · rw [if_pos hb, List.getElem?_append_left (by omega)]
    · rw [if_neg hb, List.getElem?_append_right (by omega), List.getElem?_drop]
      congr 1
      omega

/-- A slice that holds the piece, and around it the old cells or the filling, is the splice. -/
theorem slice_eq_splice {m : Nat} (hm : m = max n (off' + buf.length))
    (hbefore : ∀ i < off', d' (off + i) = if i < n then old.getD i z else z)
    (hc : old.length = n) (hbuf : ∀ i < buf.length, some (d' (off + (off' + i))) = buf[i]?)
    (hafter : ∀ i, off' + buf.length ≤ i → i < n → some (d' (off + i)) = old[i]?) :
    slice d' off m = splice z old off' buf := by
  apply List.ext_getElem?
  intro i
  rw [getElem?_slice, getElem?_splice]
  by_cases hi : i < off'
  · rw [if_pos hi, if_pos (by omega), hbefore i hi]
    by_cases hn : i < n
    · rw [if_pos hn]
    · rw [if_neg hn, List.getD_eq_getElem?_getD, List.getElem?_eq_none (by omega)]
      rfl
  · rw [if_neg hi]
    by_cases hb : i < off' + buf.length
    · rw [if_pos hb, if_pos (by omega), ← hbuf (i - off') (by omega), Nat.add_sub_cancel' (by omega)]
    · rw [if_neg hb]
      by_cases hn : i < n
      · rw [if_pos (by omega), hafter i (by omega) hn]
      · rw [if_neg (by omega), List.getElem?_eq_none (by omega)]

/-! ## Writing into a store -/

theorem slice_add (d : Nat → α) (off m n : Nat) : slice d off (m + n) = slice d off m ++ slice d (off + m) n := by
  apply List.ext_getElem?
  intro i
  rw [getElem?_slice]
  by_cases hi : i < m
  · rw [List.getElem?_append_left (by rw [slice_length]; exact hi), getElem?_slice, if_pos hi, if_pos (by omega)]
  · rw [List.getElem?_append_right (by rw [slice_length]; omega), slice_length, getElem?_slice]
    by_cases hn : i < m + n
    · rw [if_pos hn, if_pos (by omega), Nat.add_assoc, Nat.add_sub_cancel' (by omega)]
    · rw [if_neg hn, if_neg (by omega)]

/-- The store with `buf` written from `off` on. -/
def patch (d : Nat → α) (off : Nat) (buf : List α) : Nat → α :=
  fun i => if off ≤ i then (buf[i - off]?).getD (d i) else d i

theorem patch_of_lt {i : Nat} (h : i < off) : patch d off buf i = d i := if_neg (by omega)

theorem patch_of_ge {i : Nat} (h : off + buf.length ≤ i) : patch d off buf i = d i := by
  rw [patch, if_pos (by omega), List.getElem?_eq_none (by omega)]
  rfl

theorem patch_of_mem {i : Nat} (h : i < buf.length) : patch d off buf (off + i) = buf[i] := by
  rw [patch, if_pos (by omega), Nat.add_sub_cancel_left, List.getElem?_eq_getElem h]
  rfl

theorem patch_of_ne {i : Nat} (h : ∀ k < buf.length, i ≠ off + k) : patch d off buf i = d i := by
  by_cases hlt : i < off
  · exact patch_of_lt hlt
  · apply patch_of_ge
    by_contra hge
    exact h (i - off) (by omega) (by omega)

/-- A write of one cell. -/
theorem patch_singleton (d : Nat → α) (off : Nat) (x : α) (i : Nat) :
    patch d off [x] i = if i = off then x else d i := by
  by_cases h : i = off
  · subst h
    rw [if_pos rfl, patch, if_pos (Nat.le_refl i), Nat.sub_self]
    rfl
  · rw [if_neg h]
    apply patch_of_ne
    intro k hk
    rw [List.length_singleton, Nat.lt_one_iff] at hk
    rw [hk]
    exact h

theorem patch_nil (d : Nat → α) (off : Nat) : patch d off [] = d := by
  funext i
  by_cases h : off ≤ i
  · exact patch_of_ge h
  · exact patch_of_lt (by omega)

/-- A write in two pieces. -/
theorem patch_append (d : Nat → α) (off : Nat) (b b' : List α) :
    patch (patch d off b) (off + b.length) b' = patch d off (b ++ b') := by
  funext i
  by_cases h : off + b.length ≤ i
  · obtain ⟨k, rfl⟩ := Nat.exists_eq_add_of_le h
    rw [patch, if_pos h, patch_of_ge h, patch, if_pos (by omega), List.getElem?_append_right (by omega)]
    congr 2
    omega
  · rw [patch_of_lt (by omega)]
    by_cases hoff : off ≤ i
    · obtain ⟨k, rfl⟩ := Nat.exists_eq_add_of_le hoff
      rw [patch_of_mem (by omega), patch_of_mem (by rw [List.length_append]; omega),
        List.getElem_append_left (by omega)]
    · rw [patch_of_lt (by omega), patch_of_lt (by omega)]

/-- Writing a slice of another store copies its cells. -/
theorem patch_slice (i : Nat) :
    patch d off (slice d' off' n) i = if off ≤ i ∧ i < off + n then d' (off' + (i - off)) else d i := by
  by_cases h : off ≤ i ∧ i < off + n
  · obtain ⟨k, rfl⟩ := Nat.exists_eq_add_of_le h.1
    rw [if_pos h, patch, if_pos h.1, Nat.add_sub_cancel_left, getElem?_slice, if_pos (by omega)]
    rfl
  · rw [if_neg h]
    by_cases hlt : i < off
    · exact patch_of_lt hlt
    · exact patch_of_ge (by rw [slice_length]; omega)

end Splice
