import Mathlib.Data.List.Flatten
import Mathlib.Data.Nat.Digits.Lemmas
import Mathlib.Tactic.Common
import Mathlib.Tactic.Ring

/-!
# Positional notation of fixed width

Numbers as lists of digits over a base, the most significant digit first, and
lists of records that are all of one length.
-/

namespace Positional

/-! ## Digits -/

/-- The number that the digits stand for, the most significant one first. -/
def value (b : Nat) (ds : List Nat) : Nat := Nat.ofDigits b ds.reverse

/-- The `n` lowest digits of `v`. -/
def digits (b n v : Nat) : List Nat := (List.range n).map fun i => v / b ^ (n - 1 - i) % b

section Digits

variable {b n v : Nat} {xs ys : List Nat}

@[simp] theorem value_nil : value b [] = 0 := rfl

theorem value_append (xs ys : List Nat) : value b (xs ++ ys) = value b xs * b ^ ys.length + value b ys := by
  rw [value, List.reverse_append, Nat.ofDigits_append, List.length_reverse, value, value]
  ring

theorem value_concat (xs : List Nat) (d : Nat) : value b (xs ++ [d]) = value b xs * b + d := by
  rw [value_append]
  simp [value]

@[simp] theorem value_zeros (n : Nat) : value b (List.replicate n 0) = 0 := by
  rw [value, List.reverse_replicate, Nat.ofDigits_replicate_zero]

@[simp] theorem value_zeros_append (n : Nat) (xs : List Nat) :
    value b (List.replicate n 0 ++ xs) = value b xs := by
  rw [value_append, value_zeros, Nat.zero_mul, Nat.zero_add]

theorem value_lt (hb : 1 < b) (h : ∀ x ∈ xs, x < b) : value b xs < b ^ xs.length := by
  rw [value, ← List.length_reverse]
  exact Nat.ofDigits_lt_base_pow_length hb fun x hx => h x (List.mem_reverse.mp hx)

/-- Digit lists of one length are told apart by their values. -/
theorem value_inj (hb : 1 < b) (hl : xs.length = ys.length) (hx : ∀ x ∈ xs, x < b) (hy : ∀ y ∈ ys, y < b)
    (h : value b xs = value b ys) : xs = ys := by
  apply List.reverse_injective
  apply Nat.ofDigits_inj_of_len_eq hb _ _ _ h
  · rw [List.length_reverse, List.length_reverse, hl]
  · exact fun x hm => hx x (List.mem_reverse.mp hm)
  · exact fun y hm => hy y (List.mem_reverse.mp hm)

theorem eq_zeros (hb : 1 < b) (h : ∀ x ∈ xs, x < b) (hv : value b xs = 0) : xs = List.replicate xs.length 0 := by
  apply value_inj hb List.length_replicate.symm h
  · intro y hy
    rw [List.eq_of_mem_replicate hy]
    exact Nat.zero_lt_of_lt hb
  · rw [hv, value_zeros]

@[simp] theorem length_digits (b n v : Nat) : (digits b n v).length = n := by simp [digits]

theorem digits_lt (hb : 0 < b) : ∀ x ∈ digits b n v, x < b := by
  intro x hx
  obtain ⟨i, -, rfl⟩ := List.mem_map.mp hx
  exact Nat.mod_lt _ hb

theorem digits_succ (b n v : Nat) : digits b (n + 1) v = digits b n (v / b) ++ [v % b] := by
  rw [digits, List.range_succ, List.map_append, List.map_singleton, digits]
  congr 1
  · apply List.map_congr_left
    intro i hi
    have hi := List.mem_range.mp hi
    rw [Nat.div_div_eq_div_mul, ← Nat.pow_succ', show n + 1 - 1 - i = (n - 1 - i).succ by omega]
  · simp

theorem value_digits (h : v < b ^ n) : value b (digits b n v) = v := by
  induction n generalizing v with
  | zero =>
    have hv : v = 0 := by simpa using h
    simp [digits, hv]
  | succ n ih =>
    rw [digits_succ, value_concat, ih]
    · exact Nat.div_add_mod' v b
    · exact Nat.div_lt_of_lt_mul (by rwa [← Nat.pow_succ'])

/-- Digits read back with zeros in front up to the wider width. -/
theorem digits_value (hb : 1 < b) (h : ∀ x ∈ xs, x < b) (hn : xs.length ≤ n) :
    digits b n (value b xs) = List.replicate (n - xs.length) 0 ++ xs := by
  apply value_inj hb
  · simp only [length_digits, List.length_append, List.length_replicate]
    omega
  · exact digits_lt (Nat.zero_lt_of_lt hb)
  · intro y hy
    cases List.mem_append.mp hy with
    | inl hz =>
      rw [List.eq_of_mem_replicate hz]
      exact Nat.zero_lt_of_lt hb
    | inr hx => exact h y hx
  · rw [value_zeros_append]
    exact value_digits ((value_lt hb h).trans_le (Nat.pow_le_pow_right (Nat.zero_lt_of_lt hb) hn))

end Digits

/-! ## Records -/

/-- The consecutive pieces of `n` elements. -/
def parts {α : Type*} (n : Nat) (xs : List α) : List (List α) :=
  (List.range (xs.length / n)).map fun i => (xs.drop (n * i)).take n

section Records

variable {α β : Type*} {n m : Nat} {xs : List α}

@[simp] theorem parts_nil (n : Nat) : parts n ([] : List α) = [] := by simp [parts]

theorem parts_append (hn : 0 < n) {e : List α} (he : e.length = n) (xs : List α) :
    parts n (e ++ xs) = e :: parts n xs := by
  have hlen : (e ++ xs).length / n = xs.length / n + 1 := by
    rw [List.length_append, he, Nat.add_comm, Nat.add_div_right _ hn]
  rw [parts, hlen, List.range_succ_eq_map, List.map_cons, List.map_map, parts]
  congr 1
  · rw [Nat.mul_zero, List.drop_zero, List.take_left' he]
  · apply List.map_congr_left
    intro i _
    rw [Function.comp_apply, Nat.succ_eq_add_one, Nat.mul_add, Nat.mul_one, Nat.add_comm, ← List.drop_drop,
      List.drop_left' he]

theorem parts_flatten (hn : 0 < n) {es : List (List α)} (h : ∀ e ∈ es, e.length = n) :
    parts n es.flatten = es := by
  induction es with
  | nil => exact parts_nil n
  | cons e es ih =>
    rw [List.flatten_cons, parts_append hn (h e List.mem_cons_self),
      ih fun e he => h e (List.mem_cons_of_mem _ he)]

/-- A list of whole records is what its records make up. -/
theorem exists_parts (h : xs.length % n = 0) :
    ∃ es : List (List α), xs = es.flatten ∧ ∀ e ∈ es, e.length = n := by
  obtain ⟨k, hk⟩ := Nat.dvd_of_mod_eq_zero h
  clear h
  induction k generalizing xs with
  | zero =>
    obtain rfl : xs = [] := by simpa using hk
    exact ⟨[], rfl, by simp⟩
  | succ k ih =>
    rw [Nat.mul_succ] at hk
    have hd : (xs.drop n).length = n * k := by
      rw [List.length_drop]
      omega
    obtain ⟨es, hes, hlen⟩ := ih hd
    refine ⟨xs.take n :: es, ?_, ?_⟩
    · rw [List.flatten_cons, ← hes, List.take_append_drop]
    · intro e he
      cases List.mem_cons.mp he with
      | inl h0 =>
        rw [h0, List.length_take]
        omega
      | inr h1 => exact hlen e h1

theorem length_of_mem_parts (hn : 0 < n) (h : xs.length % n = 0) : ∀ e ∈ parts n xs, e.length = n := by
  obtain ⟨es, rfl, he⟩ := exists_parts h
  rw [parts_flatten hn he]
  exact he

theorem mem_of_mem_parts {e : List α} (h : e ∈ parts n xs) : ∀ x ∈ e, x ∈ xs := by
  obtain ⟨i, -, rfl⟩ := List.mem_map.mp h
  exact fun x hx => List.mem_of_mem_drop (List.mem_of_mem_take hx)

/-- Records rewritten one by one to another length are cut where they were joined. -/
theorem parts_flatMap (hm : 0 < m) {es : List β} {f : β → List α} (h : ∀ e ∈ es, (f e).length = m) :
    parts m (es.flatMap f) = es.map f := by
  rw [List.flatMap_def]
  apply parts_flatten hm
  intro e he
  obtain ⟨x, hx, rfl⟩ := List.mem_map.mp he
  exact h x hx

theorem length_flatMap_of_length {es : List β} {f : β → List α} (h : ∀ e ∈ es, (f e).length = m) :
    (es.flatMap f).length = m * es.length := by
  induction es with
  | nil => simp
  | cons e es ih =>
    rw [List.flatMap_cons, List.length_append, h e List.mem_cons_self, ih fun e he => h e (List.mem_cons_of_mem _ he),
      List.length_cons]
    ring

end Records

end Positional
