import Mathlib.Data.Nat.Find
import Mathlib.Order.Lattice
import Mathlib.Tactic.Common

/-!
# First match decides

A table is scanned in index order and the first entry with a verdict decides.
Two readings of the same table that give an entry the same verdict whenever
both give one can only come apart at an entry that one of them passes over.
-/

namespace FirstMatch

variable {β : Type*}

/-- The first of the `n` entries with a verdict has the verdict `b`. -/
def First (f : Nat → Option β) (n : Nat) (b : β) : Prop :=
  ∃ i < n, f i = some b ∧ ∀ j < i, f j = none

theorem findSome?_range {f : Nat → Option β} {n : Nat} {b : β} :
    (List.range n).findSome? f = some b ↔ First f n b := by
  induction n with
  | zero => exact iff_of_false (by simp) fun ⟨i, hi, _⟩ => absurd hi (Nat.not_lt_zero i)
  | succ n ih =>
    rw [List.range_succ, List.findSome?_append, Option.or_eq_some_iff, ih]
    constructor
    · rintro (⟨i, hi, hf, hb⟩ | ⟨hnone, hn⟩)
      · exact ⟨i, Nat.lt_succ_of_lt hi, hf, hb⟩
      · rw [List.findSome?_eq_none_iff] at hnone
        refine ⟨n, Nat.lt_succ_self n, ?_, fun j hj => hnone j (List.mem_range.mpr hj)⟩
        rwa [List.findSome?_singleton] at hn
    · rintro ⟨i, hi, hf, hb⟩
      rcases Nat.lt_succ_iff_lt_or_eq.mp hi with hlt | rfl
      · exact .inl ⟨i, hlt, hf, hb⟩
      · refine .inr ⟨?_, ?_⟩
        · rw [List.findSome?_eq_none_iff]
          exact fun j hj => hb j (List.mem_range.mp hj)
        · rw [List.findSome?_singleton, hf]

theorem First.unique {f : Nat → Option β} {n : Nat} {b b' : β} (h : First f n b) (h' : First f n b') :
    b = b' := by
  rw [← findSome?_range] at h h'
  exact Option.some.inj (h.symm.trans h')

/-- No entry before `j` has a verdict in either reading. -/
def Reached (f g : Nat → Option β) (j : Nat) : Prop := ∀ i < j, f i = none ∧ g i = none

/-- The first entry that either reading gives a verdict. -/
theorem exists_reached {f : Nat → Option β} (g : Nat → Option β) {i : Nat} (h : f i ≠ none) :
    ∃ j ≤ i, (f j ≠ none ∨ g j ≠ none) ∧ Reached f g j := by
  classical
  have hex : ∃ j, f j ≠ none ∨ g j ≠ none := ⟨i, .inl h⟩
  refine ⟨Nat.find hex, Nat.find_min' hex (.inl h), Nat.find_spec hex, fun k hk => ?_⟩
  have hno := Nat.find_min hex hk
  rwa [not_or, not_not, not_not] at hno

/-- What follows entry `j` in one reading: the first verdict there is `b`. -/
def Later (f : Nat → Option β) (n j : Nat) (b : β) : Prop :=
  ∃ k, j < k ∧ k < n ∧ f k = some b ∧ ∀ i, j < i → i < k → f i = none

theorem Later.first {f : Nat → Option β} {n j : Nat} {b : β} (h : Later f n j b)
    (hj : ∀ i ≤ j, f i = none) : First f n b := by
  obtain ⟨k, _, hk, hf, hb⟩ := h
  refine ⟨k, hk, hf, fun i hi => ?_⟩
  rcases Nat.lt_or_ge j i with hji | hij
  · exact hb i hji hi
  · exact hj i hij

theorem First.later {f : Nat → Option β} {n j : Nat} {b : β} (h : First f n b)
    (hj : ∀ i ≤ j, f i = none) : Later f n j b := by
  obtain ⟨k, hk, hf, hb⟩ := h
  refine ⟨k, ?_, hk, hf, fun i _ hi => hb i hi⟩
  by_contra hle
  rw [hj k (Nat.not_lt.mp hle)] at hf
  cases hf

/-- Where only the first reading accepts, the second still comes to the same verdict; where
only the second refuses, the first does not come to accept. -/
structure Agrees (f g : Nat → Option Bool) (n : Nat) : Prop where
  only_first : ∀ j < n, Reached f g j → f j = some true → g j = none → Later g n j true
  only_second : ∀ j < n, Reached f g j → f j = none → g j = some false → ¬ Later f n j true

/-- Readings that give the same verdicts agree. -/
theorem Agrees.of_eq {f g : Nat → Option Bool} {n : Nat} (h : ∀ i < n, f i = g i) : Agrees f g n where
  only_first j hj _ hf hg := by
    rw [h j hj, hg] at hf
    cases hf
  only_second j hj _ hf hg := by
    rw [h j hj, hg] at hf
    cases hf

/-- The second reading accepts whenever the first one does, exactly when they agree. -/
theorem imp_iff {f g : Nat → Option Bool} {n : Nat}
    (hfg : ∀ i a b, f i = some a → g i = some b → a = b) :
    (First f n true → First g n true) ↔ Agrees f g n := by
  constructor
  · intro h
    refine ⟨fun j hj hr hf hg => ?_, fun j hj hr hf hg hl => ?_⟩
    · refine (h ⟨j, hj, hf, fun i hi => (hr i hi).1⟩).later fun i hi => ?_
      rcases Nat.lt_or_eq_of_le hi with hlt | rfl
      · exact (hr i hlt).2
      · exact hg
    · have hfirst : First f n true := hl.first fun i hi => by
        rcases Nat.lt_or_eq_of_le hi with hlt | rfl
        · exact (hr i hlt).1
        · exact hf
      have hfalse : First g n false := ⟨j, hj, hg, fun i hi => (hr i hi).2⟩
      cases (h hfirst).unique hfalse
  · rintro ⟨h1, h2⟩ ⟨i, hi, hf, hb⟩
    have hne : f i ≠ none := by
      rw [hf]
      exact Option.some_ne_none _
    obtain ⟨j, hji, hj, hr⟩ := exists_reached g hne
    rcases Nat.lt_or_eq_of_le hji with hlt | rfl
    · have hfj : f j = none := hb j hlt
      have hjn : j < n := Nat.lt_trans hlt hi
      rcases hj with hj | hj
      · exact absurd hfj hj
      · obtain ⟨b, hg⟩ := Option.ne_none_iff_exists'.mp hj
        cases b with
        | true => exact ⟨j, hjn, hg, fun k hk => (hr k hk).2⟩
        | false => exact absurd ⟨i, hlt, hi, hf, fun k _ hk => hb k hk⟩ (h2 j hjn hr hfj hg)
    · cases hg : g j with
      | some b =>
        obtain rfl := hfg j true b hf hg
        exact ⟨j, hi, hg, fun k hk => (hr k hk).2⟩
      | none =>
        apply (h1 j hi hr hf hg).first
        intro k hk
        rcases Nat.lt_or_eq_of_le hk with hlt | rfl
        · exact (hr k hlt).2
        · exact hg

/-- In a sorted list the least match is found first. -/
theorem find?_of_sorted {α : Type*} [LinearOrder α] {f : α → Bool} {l : List α} {a : α}
    (hl : l.Pairwise (· < ·)) (hm : a ∈ l) (ha : f a = true) (hfirst : ∀ b < a, f b = false) :
    l.find? f = some a := by
  induction l with
  | nil => cases hm
  | cons b l ih =>
    obtain ⟨hb, hl⟩ := List.pairwise_cons.mp hl
    rcases List.mem_cons.mp hm with rfl | hm
    · exact List.find?_cons_of_pos ha
    · have hne : ¬ f b = true := by
        rw [hfirst b (hb a hm)]
        exact Bool.false_ne_true
      rw [List.find?_cons_of_neg hne]
      exact ih hl hm

/-- A fold that passes over whatever is no match ends where there is no match. -/
theorem foldl_of_find?_none {α : Type*} {f : α → Bool} {g : β → α → β} (hg : ∀ b a, f a = false → g b a = b)
    {l : List α} (h : l.find? f = none) (b : β) : l.foldl g b = b := by
  induction l with
  | nil => rfl
  | cons a l ih =>
    rw [List.find?_cons] at h
    cases ha : f a with
    | true =>
      rw [ha] at h
      cases h
    | false =>
      rw [ha] at h
      rw [List.foldl_cons, hg b a ha]
      exact ih h

/-- Otherwise it looks at the first match and goes on behind it. -/
theorem foldl_of_find?_some {f : Nat → Bool} {g : β → Nat → β} (hg : ∀ b a, f a = false → g b a = b)
    {start len i : Nat} (h : (List.range' start len).find? f = some i) (b : β) :
    (start ≤ i ∧ i < start + len ∧ f i = true) ∧
      (List.range' start len).foldl g b = (List.range' (i + 1) (start + len - (i + 1))).foldl g (g b i) := by
  induction len generalizing start with
  | zero => cases h
  | succ len ih =>
    rw [List.range'_succ, List.find?_cons] at h
    rw [List.range'_succ, List.foldl_cons]
    cases hs : f start with
    | true =>
      rw [hs] at h
      cases h
      refine ⟨⟨Nat.le_refl _, by omega, hs⟩, ?_⟩
      rw [show i + (len + 1) - (i + 1) = len by omega]
    | false =>
      rw [hs] at h
      obtain ⟨⟨hle, hlt, hi⟩, hfold⟩ := ih h
      refine ⟨⟨by omega, by omega, hi⟩, ?_⟩
      rw [hg b start hs, hfold, show start + 1 + len = start + (len + 1) by omega]

/-! ## The first of the greatest -/

/-- Entries with a key; the greatest so far is kept together with its key. -/
def keepGreatest (key : Nat → Option Nat) (best : Nat × Nat) (i : Nat) : Nat × Nat :=
  match key i with
  | none => best
  | some k => if best.2 < k then (i, k) else best

/-- Of the entries `1` to `n`, `i` is the first whose key is greatest. -/
structure FirstGreatest (key : Nat → Option Nat) (n i k : Nat) : Prop where
  pos : 0 < i
  le : i ≤ n
  here : key i = some k
  greatest : ∀ j l, 0 < j → j ≤ n → key j = some l → l ≤ k
  first : ∀ j l, 0 < j → j < i → key j = some l → l < k

/-- No entry has a key, or the fold has found the first of the greatest. -/
theorem foldl_keepGreatest {key : Nat → Option Nat} (hpos : ∀ i k, key i = some k → 0 < k) (n : Nat) :
    let best := (List.range' 1 n).foldl (keepGreatest key) (0, 0)
    best = (0, 0) ∧ (∀ j, 0 < j → j ≤ n → key j = none) ∨ FirstGreatest key n best.1 best.2 := by
  induction n with
  | zero => exact .inl ⟨rfl, fun j h0 hn => absurd h0 (by omega)⟩
  | succ n ih =>
    rw [List.range'_1_concat, List.foldl_append, List.foldl_cons, List.foldl_nil, Nat.add_comm 1 n]
    simp only at ih ⊢
    generalize (List.range' 1 n).foldl (keepGreatest key) (0, 0) = best at ih ⊢
    have hold : ∀ {j}, j ≤ n + 1 → j ≠ n + 1 → j ≤ n := fun hj hne => by omega
    cases hk : key (n + 1) with
    | none =>
      have hkeep : keepGreatest key best (n + 1) = best := by
        simp only [keepGreatest, hk]
      rw [hkeep]
      rcases ih with ⟨hbest, hnone⟩ | hb
      · refine .inl ⟨hbest, fun j h0 hj => ?_⟩
        by_cases he : j = n + 1
        · rw [he, hk]
        · exact hnone j h0 (hold hj he)
      · refine .inr { hb with le := Nat.le_succ_of_le hb.le, greatest := fun j l h0 hj hl => ?_ }
        by_cases he : j = n + 1
        · rw [he, hk] at hl
          cases hl
        · exact hb.greatest j l h0 (hold hj he) hl
    | some k =>
      have hkeep : keepGreatest key best (n + 1) = if best.2 < k then (n + 1, k) else best := by
        simp only [keepGreatest, hk]
      rw [hkeep]
      by_cases hlt : best.2 < k
      · -- the new entry wins over all before it
        have hbefore : ∀ j l, 0 < j → j < n + 1 → key j = some l → l < k := by
          intro j l h0 hj hl
          rcases ih with ⟨_, hnone⟩ | hb
          · rw [hnone j h0 (Nat.le_of_lt_succ hj)] at hl
            cases hl
          · exact (hb.greatest j l h0 (Nat.le_of_lt_succ hj) hl).trans_lt hlt
        rw [if_pos hlt]
        refine .inr ⟨Nat.succ_pos n, Nat.le_refl _, hk, fun j l h0 hj hl => ?_, hbefore⟩
        by_cases he : j = n + 1
        · rw [he, hk] at hl
          cases hl
          exact Nat.le_refl _
        · exact Nat.le_of_lt (hbefore j l h0 (Nat.lt_of_le_of_ne hj he) hl)
      · rw [if_neg hlt]
        rcases ih with ⟨rfl, _⟩ | hb
        · exact absurd (hpos _ _ hk) hlt
        · refine .inr { hb with le := Nat.le_succ_of_le hb.le, greatest := fun j l h0 hj hl => ?_ }
          by_cases he : j = n + 1
          · rw [he, hk] at hl
            cases hl
            exact Nat.not_lt.mp hlt
          · exact hb.greatest j l h0 (hold hj he) hl

end FirstMatch
