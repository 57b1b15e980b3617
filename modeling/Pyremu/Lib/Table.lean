import Mathlib.Data.List.FinRange
import Mathlib.Data.List.Nodup
import Mathlib.Logic.Function.Basic
import Mathlib.Tactic.Common

/-!
# Loops over a table

A loop that rewrites one entry for each key of a list, and a loop that fills a
range of cells one after the other.
-/

namespace Table

variable {ι α : Type*}

section Keys
variable [DecidableEq ι]

/-- Rewrite the entry of each key in the order of the list. -/
def forEach (l : List ι) (f : ι → α → α) (t : ι → α) : ι → α :=
  l.foldl (fun t i => Function.update t i (f i (t i))) t

variable {l : List ι} {f : ι → α → α} {t : ι → α}

theorem forEach_cons (j : ι) : forEach (j :: l) f t = forEach l f (Function.update t j (f j (t j))) := rfl

theorem forEach_of_notMem {i : ι} (hi : i ∉ l) : forEach l f t i = t i := by
  induction l generalizing t with
  | nil => rfl
  | cons j l ih =>
    rw [List.mem_cons, not_or] at hi
    obtain ⟨hij, hi⟩ := hi
    rw [forEach_cons, ih hi, Function.update_of_ne hij]

/-- With no key twice, each entry is rewritten once, from what it held before the loop. -/
theorem forEach_of_mem {i : ι} (hl : l.Nodup) (hi : i ∈ l) : forEach l f t i = f i (t i) := by
  induction l generalizing t with
  | nil => cases hi
  | cons j l ih =>
    obtain ⟨hj, hl⟩ := List.nodup_cons.mp hl
    rw [forEach_cons]
    rcases List.mem_cons.mp hi with rfl | hmem
    · rw [forEach_of_notMem hj, Function.update_self]
    · have hij : i ≠ j := by
        rintro rfl
        exact hj hmem
      rw [ih hl hmem, Function.update_of_ne hij]

theorem forEach_finRange {n : Nat} (f : Fin n → α → α) (t : Fin n → α) :
    forEach (List.finRange n) f t = fun i => f i (t i) := by
  funext i
  exact forEach_of_mem (List.nodup_finRange n) (List.mem_finRange i)

end Keys

/-- Fill `n` cells from `off` on. -/
def fill (d : Nat → α) (off n : Nat) (f : Nat → α) : Nat → α :=
  (List.range n).foldl (fun d i => Function.update d (off + i) (f i)) d

theorem fill_succ (d : Nat → α) (off n : Nat) (f : Nat → α) :
    fill d off (n + 1) f = Function.update (fill d off n f) (off + n) (f n) := by
  rw [fill, List.range_succ, List.foldl_append]
  rfl

theorem fill_apply (d : Nat → α) (off n : Nat) (f : Nat → α) (j : Nat) :
    fill d off n f j = if off ≤ j ∧ j < off + n then f (j - off) else d j := by
  induction n with
  | zero =>
    rw [if_neg (by omega)]
    rfl
  | succ n ih =>
    rw [fill_succ]
    by_cases hj : j = off + n
    · subst hj
      rw [Function.update_self, if_pos (by omega), Nat.add_sub_cancel_left]
    · rw [Function.update_of_ne hj, ih]
      by_cases hin : off ≤ j ∧ j < off + n
      · rw [if_pos hin, if_pos (by omega)]
      · rw [if_neg hin, if_neg (by omega)]

theorem fill_add (d : Nat → α) (off n : Nat) (f : Nat → α) (i : Nat) :
    fill d off n f (off + i) = if i < n then f i else d (off + i) := by
  rw [fill_apply, Nat.add_sub_cancel_left]
  by_cases hi : i < n
  · rw [if_pos hi, if_pos (by omega)]
  · rw [if_neg hi, if_neg (by omega)]

end Table
