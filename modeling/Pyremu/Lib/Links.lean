import Mathlib.Data.List.Nodup
import Mathlib.Data.List.Basic
import Mathlib.Data.Fintype.Card
import Mathlib.Logic.Function.Basic
import Mathlib.Tactic.Common

/-!
# Linked lists in a table

The keys met from a head by following a partial function to its end. The list
is determined by the head, has no duplicates, and does not depend on the links
of other keys.
-/

namespace Links

variable {ι : Type*}

/-- From `head` the links lead through `l` and end. -/
inductive Chain (next : ι → Option ι) : Option ι → List ι → Prop
  | nil : Chain next none []
  | cons {i : ι} {l : List ι} (h : Chain next (next i) l) : Chain next (some i) (i :: l)

variable {next next' : ι → Option ι} {head : Option ι} {l l' : List ι} {i : ι}

theorem Chain.unique (h : Chain next head l) (h' : Chain next head l') : l = l' := by
  induction h generalizing l' with
  | nil =>
    cases h'
    rfl
  | cons _ ih =>
    cases h' with
    | cons h' => rw [ih h']

theorem Chain.congr (h : Chain next head l) (heq : ∀ i ∈ l, next' i = next i) : Chain next' head l := by
  induction h with
  | nil => exact .nil
  | cons _ ih =>
    apply Chain.cons
    rw [heq _ (List.mem_cons_self ..)]
    exact ih fun j hj => heq j (List.mem_cons_of_mem _ hj)

/-- A key on the list starts a list that is no longer. -/
theorem Chain.tail (h : Chain next head l) (hi : i ∈ l) : ∃ l', Chain next (some i) (i :: l') ∧ l'.length < l.length := by
  induction h with
  | nil => cases hi
  | cons h ih =>
    rename_i k l
    rcases List.mem_cons.mp hi with rfl | hi
    · exact ⟨l, .cons h, Nat.lt_succ_self _⟩
    · obtain ⟨l', hl', hlt⟩ := ih hi
      exact ⟨l', hl', hlt.trans (Nat.lt_succ_self _)⟩

theorem Chain.nodup (h : Chain next head l) : l.Nodup := by
  induction h with
  | nil => exact List.nodup_nil
  | cons h ih =>
    rename_i k l
    refine List.nodup_cons.mpr ⟨fun hk => ?_, ih⟩
    obtain ⟨l', hl', hlt⟩ := h.tail hk
    have heq := hl'.unique (.cons h)
    rw [(List.cons.inj heq).2] at hlt
    exact Nat.lt_irrefl _ hlt

theorem Chain.length_le [Fintype ι] (h : Chain next head l) : l.length ≤ Fintype.card ι := h.nodup.length_le_card

/-- The first key goes. -/
theorem Chain.behead {t : ι} {l₂ : List ι} (h : Chain next head (t :: l₂)) : Chain next (next t) l₂ := by
  cases h with
  | cons h => exact h

/-- The key `t` goes when the link of the key before it skips it. -/
theorem Chain.skip [DecidableEq ι] {l₁ l₂ : List ι} {p t : ι} (h : Chain next head (l₁ ++ p :: t :: l₂)) :
    Chain (Function.update next p (next t)) head (l₁ ++ p :: l₂) := by
  induction l₁ generalizing head with
  | nil =>
    cases h with
    | cons hp =>
      have hnodup := (Chain.cons hp).nodup
      have hl₂ : Chain next (next t) l₂ := hp.behead
      apply Chain.cons
      rw [Function.update_self]
      apply hl₂.congr
      intro j hj
      apply Function.update_of_ne
      rintro rfl
      exact (List.nodup_cons.mp hnodup).1 (List.mem_cons_of_mem _ hj)
  | cons k l₁ ih =>
    cases h with
    | cons hk =>
      have hne : k ≠ p := by
        rintro rfl
        exact (List.nodup_cons.mp (Chain.cons hk).nodup).1
          (List.mem_append_right _ (List.mem_cons_self ..))
      apply Chain.cons
      rw [Function.update_of_ne hne]
      exact ih hk

end Links
