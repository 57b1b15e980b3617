import Mathlib.Algebra.BigOperators.Group.Finset.Piecewise
import Mathlib.Data.Fintype.Basic
import Mathlib.Data.Fintype.Card

/-!
# Counting processes

The number of processes whose local state satisfies a test. A process that moves
changes it by what the test says before and after.
-/

namespace Tally

variable {ℓ ι : Type*} [Fintype ι]

def tally (p : ℓ → Bool) (proc : ι → ℓ) : Nat := (Finset.univ.filter fun i => p (proc i) = true).card

variable {p : ℓ → Bool} {proc : ι → ℓ}

theorem tally_eq_sum (p : ℓ → Bool) (proc : ι → ℓ) : tally p proc = ∑ i, (p (proc i)).toNat := by
  rw [tally, Finset.card_filter]
  apply Finset.sum_congr rfl
  intro i _
  cases p (proc i) <;> rfl

theorem tally_update [DecidableEq ι] (p : ℓ → Bool) (proc : ι → ℓ) (i : ι) (x : ℓ) :
    tally p (Function.update proc i x) + (p (proc i)).toNat = tally p proc + (p x).toNat := by
  have hrest : ∑ j ∈ Finset.univ.erase i, (p (Function.update proc i x j)).toNat =
      ∑ j ∈ Finset.univ.erase i, (p (proc j)).toNat := by
    apply Finset.sum_congr rfl
    intro j hj
    rw [Function.update_of_ne (Finset.ne_of_mem_erase hj)]
  rw [tally_eq_sum, tally_eq_sum, ← Finset.add_sum_erase _ _ (Finset.mem_univ i),
    ← Finset.add_sum_erase _ (fun j => (p (proc j)).toNat) (Finset.mem_univ i), hrest, Function.update_self]
  omega

theorem tally_pos {i : ι} (h : p (proc i) = true) : 1 ≤ tally p proc :=
  Finset.card_pos.mpr ⟨i, Finset.mem_filter.mpr ⟨Finset.mem_univ i, h⟩⟩

theorem exists_of_tally_pos (h : 0 < tally p proc) : ∃ i, p (proc i) = true := by
  obtain ⟨i, hi⟩ := Finset.card_pos.mp h
  exact ⟨i, (Finset.mem_filter.mp hi).2⟩

/-- A tally that reaches the number of all candidates has counted them all. -/
theorem all_of_card_le {q : ι → Bool} (hpq : ∀ i, p (proc i) = true → q i = true)
    (h : (Finset.univ.filter fun i => q i = true).card ≤ tally p proc) (i : ι) (hi : q i = true) :
    p (proc i) = true := by
  have hsub : (Finset.univ.filter fun i => p (proc i) = true) ⊆ Finset.univ.filter fun i => q i = true := by
    intro j hj
    rw [Finset.mem_filter] at hj ⊢
    exact ⟨hj.1, hpq j hj.2⟩
  have heq := Finset.eq_of_subset_of_card_le hsub h
  have hmem : i ∈ Finset.univ.filter fun i => q i = true := Finset.mem_filter.mpr ⟨Finset.mem_univ i, hi⟩
  rw [← heq, Finset.mem_filter] at hmem
  exact hmem.2

end Tally
