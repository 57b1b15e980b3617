import Mathlib.Data.List.Nodup
import Mathlib.Data.List.Basic
import Mathlib.Data.List.FinRange
import Mathlib.Logic.Function.Basic
import Mathlib.Algebra.GroupWithZero.Nat
import Mathlib.Tactic.Common

/-!
# Sweeps over a table

A table is a function from keys to entries. A sweep visits the keys in the
order of a list and rewrites the entries that pass a test until a budget is
used up; a round-robin search starts behind a given slot and comes round.
-/

namespace Sweep

variable {ι α : Type*}

/-- Rewrite at most `nr` entries that pass `p`. The counter starts at `n`. -/
def sweep [DecidableEq ι] (p : α → Bool) (f : α → α) (nr : Nat) :
    List ι → Nat → (ι → α) → (ι → α) × Nat
  | [], n, t => (t, n)
  | i :: l, n, t =>
    if nr ≤ n then (t, n)
    else if p (t i) then sweep p f nr l (n + 1) (Function.update t i (f (t i)))
    else sweep p f nr l n t

/-- The keys that a sweep of budget `nr` rewrites. -/
def chosen (p : α → Bool) (nr : Nat) (l : List ι) (t : ι → α) : List ι :=
  (l.filter fun i => p (t i)).take nr

variable {p : α → Bool} {f : α → α} {nr : Nat}

theorem chosen_cons_of_pos {i : ι} {l : List ι} {t : ι → α} (h : p (t i) = true) (n : Nat) :
    chosen p (n + 1) (i :: l) t = i :: chosen p n l t := by
  simp only [chosen, List.filter_cons, h, if_true, List.take_succ_cons]

theorem chosen_cons_of_neg {i : ι} {l : List ι} {t : ι → α} (h : ¬ p (t i) = true) (n : Nat) :
    chosen p n (i :: l) t = chosen p n l t := by
  simp only [chosen, List.filter_cons, h, if_false, Bool.false_eq_true]

theorem mem_of_mem_chosen {i : ι} {l : List ι} {t : ι → α} (h : i ∈ chosen p nr l t) :
    i ∈ l ∧ p (t i) = true := by
  have hf := List.mem_of_mem_take h
  rwa [List.mem_filter] at hf

/-- Keys that are not swept do not matter for the choice. -/
theorem chosen_congr {l : List ι} {t u : ι → α} (h : ∀ i ∈ l, t i = u i) :
    chosen p nr l t = chosen p nr l u := by
  have hf : l.filter (fun i => p (t i)) = l.filter (fun i => p (u i)) := by
    apply List.filter_congr
    intro i hi
    rw [h i hi]
  rw [chosen, chosen, hf]

/-- A sweep rewrites the chosen keys and no others. -/
theorem sweep_apply [DecidableEq ι] {l : List ι} (hl : l.Nodup) (n : Nat) (t : ι → α) (i : ι) :
    (sweep p f nr l n t).1 i = if i ∈ chosen p (nr - n) l t then f (t i) else t i := by
  induction l generalizing n t with
  | nil => simp [sweep, chosen]
  | cons j l ih =>
    obtain ⟨hj, hl⟩ := List.nodup_cons.mp hl
    rw [sweep]
    by_cases hn : nr ≤ n
    · have hz : nr - n = 0 := by omega
      simp [hn, hz, chosen]
    · rw [if_neg hn]
      have hs : nr - n = nr - (n + 1) + 1 := by omega
      by_cases hp : p (t j) = true
      · have hu : ∀ k ∈ l, Function.update t j (f (t j)) k = t k := by
          intro k hk
          apply Function.update_of_ne
          rintro rfl
          exact hj hk
        rw [if_pos hp, ih hl, chosen_congr hu, hs, chosen_cons_of_pos hp]
        by_cases hij : i = j
        · subst hij
          have hi : i ∉ chosen p (nr - (n + 1)) l t := fun h => hj (mem_of_mem_chosen h).1
          simp [hi]
        · simp [hij]
      · rw [if_neg hp, ih hl, chosen_cons_of_neg hp]

theorem sweep_of_notMem [DecidableEq ι] {l : List ι} (hl : l.Nodup) (n : Nat) (t : ι → α) {i : ι}
    (hi : i ∉ l) : (sweep p f nr l n t).1 i = t i := by
  rw [sweep_apply hl, if_neg]
  intro hc
  exact hi (mem_of_mem_chosen hc).1

/-- When a rewritten entry no longer passes the test, the entries that still pass are those beyond
the budget. -/
theorem filter_sweep [DecidableEq ι] {l : List ι} (hl : l.Nodup) (hf : ∀ a, p (f a) = false)
    (n : Nat) (t : ι → α) :
    (l.filter fun i => p ((sweep p f nr l n t).1 i)) = (l.filter fun i => p (t i)).drop (nr - n) := by
  induction l generalizing n t with
  | nil => simp
  | cons j l ih =>
    obtain ⟨hj, hl⟩ := List.nodup_cons.mp hl
    rw [sweep]
    by_cases hn : nr ≤ n
    · have hz : nr - n = 0 := by omega
      simp [hn, hz]
    · rw [if_neg hn]
      by_cases hp : p (t j) = true
      · have hs : nr - n = nr - (n + 1) + 1 := by omega
        have hu : (l.filter fun i => p (Function.update t j (f (t j)) i)) =
            l.filter fun i => p (t i) := by
          apply List.filter_congr
          intro i hi
          rw [Function.update_of_ne]
          rintro rfl
          exact hj hi
        rw [if_pos hp, List.filter_cons, sweep_of_notMem hl _ _ hj, Function.update_self, hf,
          if_neg Bool.false_ne_true, ih hl, hu, hs, List.filter_cons, if_pos hp, List.drop_succ_cons]
      · rw [if_neg hp, List.filter_cons, sweep_of_notMem hl _ _ hj, if_neg hp, ih hl, List.filter_cons,
          if_neg hp]

/-- With any budget at all the first of a list is taken. -/
theorem exists_mem_take {l : List ι} {i : ι} (hnr : 0 < nr) (hi : i ∈ l) : ∃ k, k ∈ l.take nr := by
  obtain ⟨k, m, rfl⟩ := List.exists_cons_of_ne_nil (List.ne_nil_of_mem hi)
  obtain ⟨n, rfl⟩ := Nat.exists_eq_succ_of_ne_zero (by omega : nr ≠ 0)
  exact ⟨k, by simp only [List.take_succ_cons, List.mem_cons, true_or]⟩

/-! ## Coming round -/

/-- The slots behind `after` in cyclic order, `after` itself left out. -/
def behind (n : Nat) [NeZero n] (after : Fin n) : List (Fin n) :=
  (List.range' 1 (n - 1)).map fun off => Fin.ofNat n (after + off)

theorem mem_behind {n : Nat} [NeZero n] {after i : Fin n} : i ∈ behind n after ↔ i ≠ after := by
  simp only [behind, List.mem_map, List.mem_range'_1, Fin.ext_iff, Fin.ofNat, ne_eq]
  have hi := i.isLt
  have ha := after.isLt
  constructor
  · rintro ⟨off, ⟨h1, h2⟩, h⟩ he
    rw [← h] at he
    by_cases hw : after.val + off < n
    · rw [Nat.mod_eq_of_lt hw] at he
      omega
    · rw [Nat.mod_eq_sub_mod (by omega), Nat.mod_eq_of_lt (by omega)] at he
      omega
  · intro hne
    by_cases hlt : after.val < i.val
    · refine ⟨i.val - after.val, by omega, ?_⟩
      rw [Nat.add_sub_cancel' (by omega), Nat.mod_eq_of_lt hi]
    · refine ⟨i.val + n - after.val, by omega, ?_⟩
      rw [Nat.add_sub_cancel' (by omega), Nat.add_mod_right, Nat.mod_eq_of_lt hi]

/-- The first slot behind `after` that passes a test. -/
def findBehind (n : Nat) [NeZero n] (p : Fin n → Bool) (after : Fin n) : Option (Fin n) :=
  (behind n after).find? p

theorem findBehind_some {n : Nat} [NeZero n] {q : Fin n → Bool} {after i : Fin n}
    (h : findBehind n q after = some i) : i ≠ after ∧ q i = true :=
  ⟨mem_behind.mp (List.mem_of_find?_eq_some h), List.find?_some h⟩

theorem findBehind_none {n : Nat} [NeZero n] {q : Fin n → Bool} {after : Fin n} :
    findBehind n q after = none ↔ ∀ i, i ≠ after → q i = false := by
  simp only [findBehind, List.find?_eq_none, mem_behind, Bool.not_eq_true]

/-- How many slots behind `a` the slot `b` stands. -/
def gap (n : Nat) (a b : Fin n) : Nat := if a.val ≤ b.val then b.val - a.val else b.val + n - a.val

theorem gap_pos {n : Nat} {a b : Fin n} (h : b ≠ a) : 0 < gap n a b := by
  have hne : b.val ≠ a.val := fun he => h (Fin.ext he)
  have ha := a.isLt
  rw [gap]
  split_ifs <;> omega

/-- A slot on the way takes its share of the gap. -/
theorem gap_add {n : Nat} {a b c : Fin n} (h : gap n a b ≤ gap n a c) : gap n a b + gap n b c = gap n a c := by
  have ha := a.isLt
  have hb := b.isLt
  have hc := c.isLt
  simp only [gap] at h ⊢
  split_ifs at h ⊢ <;> omega

theorem ofNat_gap {n : Nat} [NeZero n] (a b : Fin n) : Fin.ofNat n (a + gap n a b) = b := by
  have ha := a.isLt
  have hb := b.isLt
  apply Fin.ext
  simp only [Fin.ofNat, gap]
  split_ifs with h
  · rw [Nat.add_sub_cancel' h, Nat.mod_eq_of_lt hb]
  · rw [Nat.add_sub_cancel' (by omega), Nat.add_mod_right, Nat.mod_eq_of_lt hb]

theorem gap_ofNat {n : Nat} [NeZero n] (a : Fin n) {off : Nat} (h : off < n) : gap n a (Fin.ofNat n (a + off)) = off := by
  have ha := a.isLt
  simp only [Fin.ofNat, gap]
  by_cases hw : a.val + off < n
  · rw [Nat.mod_eq_of_lt hw, if_pos (by omega)]
    omega
  · rw [Nat.mod_eq_sub_mod (by omega), Nat.mod_eq_of_lt (by omega), if_neg (by omega)]
    omega

/-- The search finds the nearest. -/
theorem findBehind_nearest {n : Nat} [NeZero n] {q : Fin n → Bool} {after i j : Fin n}
    (h : findBehind n q after = some i) (hne : j ≠ after) (hj : q j = true) : gap n after i ≤ gap n after j := by
  rw [findBehind, behind, List.find?_map, Option.map_eq_some_iff] at h
  obtain ⟨off, hoff, rfl⟩ := h
  rw [List.find?_range'_eq_some] at hoff
  obtain ⟨_, hmem, hfirst⟩ := hoff
  rw [List.mem_range'_1] at hmem
  rw [gap_ofNat after (by omega)]
  by_contra hlt
  have hno := hfirst (gap n after j) (gap_pos hne) (Nat.not_le.mp hlt)
  rw [Function.comp_apply, ofNat_gap, hj] at hno
  cases hno

end Sweep
