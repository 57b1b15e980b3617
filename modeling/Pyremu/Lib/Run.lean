import Mathlib.Data.List.Basic

/-!
# Runs of a machine

A run applies a step function to the labels of a list. `Along` looks at each
state together with the label it is about to consume, `Always` at every state
of the run, the first and the last included.
-/

namespace Run

variable {σ α : Type*} (step : σ → α → σ)

/-- `P` holds of every state and the label consumed there. -/
def Along (P : σ → α → Prop) : σ → List α → Prop
  | _, [] => True
  | s, a :: l => P s a ∧ Along P (step s a) l

instance Along.decidable {P : σ → α → Prop} [hP : ∀ s a, Decidable (P s a)] :
    ∀ s l, Decidable (Along step P s l)
  | _, [] => .isTrue trivial
  | s, a :: l =>
    have : Decidable (Along step P (step s a) l) := Along.decidable (step s a) l
    inferInstanceAs (Decidable (P s a ∧ Along step P (step s a) l))

/-- `Q` holds of every state that is reached. -/
def Always (Q : σ → Prop) : σ → List α → Prop
  | s, [] => Q s
  | s, a :: l => Q s ∧ Always Q (step s a) l

variable {step} {s : σ} {l : List α}

/-- A property that each step keeps exactly under `P` holds always exactly when `P`
holds along the run. `I` is an invariant and `G` what the run promises of its labels. -/
theorem always_iff_along {I Q : σ → Prop} {G P : σ → α → Prop}
    (hI : ∀ s a, I s → G s a → I (step s a))
    (hQ : ∀ s a, I s → G s a → Q s → (Q (step s a) ↔ P s a))
    (hi : I s) (hq : Q s) (hg : Along step G s l) :
    Always step Q s l ↔ Along step P s l := by
  induction l generalizing s with
  | nil => exact iff_of_true hq trivial
  | cons a l ih =>
    obtain ⟨hga, hgl⟩ := hg
    have hstep := hQ s a hi hga hq
    constructor
    · rintro ⟨_, hl⟩
      have hq' : Q (step s a) := by
        cases l with
        | nil => exact hl
        | cons b l => exact hl.1
      exact ⟨hstep.mp hq', (ih (hI s a hi hga) hq' hgl).mp hl⟩
    · rintro ⟨hp, hl⟩
      have hq' := hstep.mpr hp
      exact ⟨hq, (ih (hI s a hi hga) hq' hgl).mpr hl⟩

/-- Two properties that agree wherever the invariant holds agree along a run. -/
theorem along_congr {I : σ → Prop} {G P Q : σ → α → Prop}
    (hI : ∀ s a, I s → G s a → I (step s a)) (hPQ : ∀ s a, I s → G s a → (P s a ↔ Q s a))
    (hi : I s) (hg : Along step G s l) : Along step P s l ↔ Along step Q s l := by
  induction l generalizing s with
  | nil => exact Iff.rfl
  | cons a l ih => exact and_congr (hPQ s a hi hg.1) (ih (hI s a hi hg.1) hg.2)

/-- What holds at every label in every state under an invariant holds along a run. -/
theorem along_of_invariant {I : σ → Prop} {P : σ → α → Prop} (hI : ∀ s a, I s → I (step s a))
    (hP : ∀ s a, I s → P s a) (hi : I s) : Along step P s l := by
  induction l generalizing s with
  | nil => trivial
  | cons a l ih => exact ⟨hP s a hi, ih (hI s a hi)⟩

theorem along_true : Along step (fun _ _ => True) s l := by
  induction l generalizing s with
  | nil => trivial
  | cons a l ih => exact ⟨trivial, ih⟩

/-- What an invariant gives at every promised label holds along a run that keeps its promise. -/
theorem along_of_promised {I : σ → Prop} {G P : σ → α → Prop}
    (hI : ∀ s a, I s → G s a → I (step s a)) (hP : ∀ s a, I s → G s a → P s a) (hi : I s)
    (hg : Along step G s l) : Along step P s l := by
  induction l generalizing s with
  | nil => trivial
  | cons a l ih => exact ⟨hP s a hi hg.1, ih (hI s a hi hg.1) hg.2⟩

/-- An invariant that the promised labels keep holds in every state of a run. -/
theorem always_of_invariant {I Q : σ → Prop} {G : σ → α → Prop}
    (hI : ∀ s a, I s → G s a → I (step s a)) (hQ : ∀ s, I s → Q s) (hi : I s)
    (hg : Along step G s l) : Always step Q s l := by
  induction l generalizing s with
  | nil => exact hQ s hi
  | cons a l ih => exact ⟨hQ s hi, ih (hI s a hi hg.1) hg.2⟩

/-- Two properties of the labels that agree under an invariant, which a label keeps that has the
first one, hold along the same runs. `G` is what the run promises of its labels. -/
theorem along_iff_of_kept {I : σ → Prop} {G P Q : σ → α → Prop}
    (hPQ : ∀ s a, I s → G s a → (P s a ↔ Q s a)) (hI : ∀ s a, I s → G s a → P s a → I (step s a)) (hi : I s)
    (hg : Along step G s l) : Along step P s l ↔ Along step Q s l := by
  induction l generalizing s with
  | nil => exact Iff.rfl
  | cons a l ih =>
    obtain ⟨hga, hgl⟩ := hg
    constructor
    · rintro ⟨hp, hl⟩
      exact ⟨(hPQ s a hi hga).mp hp, (ih (hI s a hi hga hp) hgl).mp hl⟩
    · rintro ⟨hq, hl⟩
      have hp := (hPQ s a hi hga).mpr hq
      exact ⟨hp, (ih (hI s a hi hga hp) hgl).mpr hl⟩

theorem along_of_forall {P : α → Prop} (h : ∀ a ∈ l, P a) : Along step (fun _ a => P a) s l := by
  induction l generalizing s with
  | nil => trivial
  | cons a l ih =>
    obtain ⟨ha, hl⟩ := List.forall_mem_cons.mp h
    exact ⟨ha, ih hl⟩

/-- The same where the promise is about the labels alone. -/
theorem along_iff_of_promised {I : σ → Prop} {G : α → Prop} {P Q : σ → α → Prop}
    (hPQ : ∀ s a, I s → G a → (P s a ↔ Q s a)) (hI : ∀ s a, I s → G a → P s a → I (step s a)) (hi : I s)
    (hg : ∀ a ∈ l, G a) : Along step P s l ↔ Along step Q s l :=
  along_iff_of_kept hPQ hI hi (along_of_forall hg)

theorem along_iff_of_step {I : σ → Prop} {P Q : σ → α → Prop} (hPQ : ∀ s a, I s → (P s a ↔ Q s a))
    (hI : ∀ s a, I s → P s a → I (step s a)) (hi : I s) : Along step P s l ↔ Along step Q s l :=
  along_iff_of_promised (fun s a hs _ => hPQ s a hs) (fun s a hs _ hp => hI s a hs hp) hi fun _ _ => trivial

/-- A property of all states is one of the first state and of what every label leads to. -/
theorem always_iff {Q : σ → Prop} : Always step Q s l ↔ Q s ∧ Along step (fun s a => Q (step s a)) s l := by
  induction l generalizing s with
  | nil => exact (and_iff_left trivial).symm
  | cons a l ih => exact and_congr_right fun _ => ih

theorem along_and_iff {P Q : σ → α → Prop} :
    Along step (fun s a => P s a ∧ Q s a) s l ↔ Along step P s l ∧ Along step Q s l := by
  induction l generalizing s with
  | nil => exact (and_self_iff).symm
  | cons a l ih =>
    constructor
    · rintro ⟨h, hl⟩
      obtain ⟨hp, hq⟩ := ih.mp hl
      exact ⟨⟨h.1, hp⟩, ⟨h.2, hq⟩⟩
    · rintro ⟨hp, hq⟩
      exact ⟨⟨hp.1, hq.1⟩, ih.mpr ⟨hp.2, hq.2⟩⟩

theorem Along.and {P Q : σ → α → Prop} (hp : Along step P s l) (hq : Along step Q s l) :
    Along step (fun s a => P s a ∧ Q s a) s l := along_and_iff.mpr ⟨hp, hq⟩

/-- The last state of a run is one of its states. -/
theorem Always.last {Q : σ → Prop} (h : Always step Q s l) : Q (l.foldl step s) := by
  induction l generalizing s with
  | nil => exact h
  | cons a l ih => exact ih h.2

/-- What holds along a run holds at its last label. -/
theorem Along.last {P : σ → α → Prop} {a : α} (h : Along step P s (l ++ [a])) :
    P (l.foldl step s) a := by
  induction l generalizing s with
  | nil => exact h.1
  | cons b l ih => exact ih h.2

/-! ## Counting -/

/-- How many labels of a run pass a test in the state where they are consumed. -/
def count (step : σ → α → σ) (p : σ → α → Bool) : σ → List α → Nat
  | _, [] => 0
  | s, a :: l => (p s a).toNat + count step p (step s a) l

/-- A rank that every counted label lowers and no label raises bounds the count. -/
theorem count_lt_of_rank {I : σ → Prop} {G : σ → α → Prop} {p : σ → α → Bool} {rank : σ → Nat}
    (hI : ∀ s a, I s → G s a → I (step s a)) (hpos : ∀ s, I s → 0 < rank s)
    (hdown : ∀ s a, I s → G s a → (p s a).toNat + rank (step s a) ≤ rank s) (hi : I s)
    (hg : Along step G s l) : count step p s l < rank s := by
  induction l generalizing s with
  | nil => exact hpos s hi
  | cons a l ih => calc
      count step p s (a :: l) = (p s a).toNat + count step p (step s a) l := rfl
      _ < (p s a).toNat + rank (step s a) := Nat.add_lt_add_left (ih (hI s a hi hg.1) hg.2) _
      _ ≤ rank s := hdown s a hi hg.1

/-- Labels that leave a debt which only labels of the second kind settle, and none of which finds one, are at
most one more than those. -/
theorem count_le_of_owed {I : σ → Prop} {G : σ → α → Prop} {p q : σ → α → Bool} {owed : σ → Bool}
    (hI : ∀ s a, I s → G s a → I (step s a))
    (hstep : ∀ s a, I s → G s a → (p s a).toNat + (owed s).toNat ≤ (q s a).toNat + (owed (step s a)).toNat)
    (hi : I s) (hg : Along step G s l) : count step p s l + (owed s).toNat ≤ count step q s l + 1 := by
  induction l generalizing s with
  | nil =>
    have hle : (owed s).toNat ≤ 1 := Bool.toNat_le _
    simpa only [count, Nat.zero_add] using hle
  | cons a l ih =>
    have hone := hstep s a hi hg.1
    have hrest := ih (hI s a hi hg.1) hg.2
    simp only [count]
    omega

end Run
