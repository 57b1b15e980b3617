import Mathlib.Logic.Function.Basic
import Pyremu.Lib.Run

/-!
# Interleavings

Processes that share a state and take their atomic steps in any order. A label
names the process and what it does. The rules reduce an invariant of all
processes, or of all pairs of processes, to the step of one process.
-/

namespace Interleave

/-- The shared state and the state of each process. -/
structure Config (σ ℓ ι : Type*) where
  shared : σ
  proc : ι → ℓ

variable {σ ℓ α ι : Type*} [DecidableEq ι]

/-- Process `l.1` takes the step `l.2`. -/
def step (f : ι → σ → ℓ → α → σ × ℓ) (c : Config σ ℓ ι) (l : ι × α) : Config σ ℓ ι :=
  let r := f l.1 c.shared (c.proc l.1) l.2
  ⟨r.1, Function.update c.proc l.1 r.2⟩

variable {f : ι → σ → ℓ → α → σ × ℓ} {c : Config σ ℓ ι} {i j : ι} {a : α}

theorem step_proc_self : (step f c (i, a)).proc i = (f i c.shared (c.proc i) a).2 :=
  Function.update_self ..

theorem step_proc_other (h : j ≠ i) : (step f c (i, a)).proc j = c.proc j :=
  Function.update_of_ne h ..

/-- Every process satisfies `J`. -/
def All (J : ι → σ → ℓ → Prop) (c : Config σ ℓ ι) : Prop := ∀ i, J i c.shared (c.proc i)

/-- The process that moves keeps `J`, and the others are not disturbed. -/
theorem All.step {J : ι → σ → ℓ → Prop} (h : All J c)
    (own : J i (f i c.shared (c.proc i) a).1 (f i c.shared (c.proc i) a).2)
    (other : ∀ j, j ≠ i → J j c.shared (c.proc j) → J j (f i c.shared (c.proc i) a).1 (c.proc j)) :
    All J (step f c (i, a)) := by
  intro j
  by_cases hj : j = i
  · subst hj
    rw [step_proc_self]
    exact own
  · rw [step_proc_other hj]
    exact other j hj (h j)

/-- Any two processes satisfy `K`. -/
def Pairs (K : ι → ι → σ → ℓ → ℓ → Prop) (c : Config σ ℓ ι) : Prop :=
  ∀ i j, i ≠ j → K i j c.shared (c.proc i) (c.proc j)

/-- The process that moves is the first of the pair, the second, or neither. -/
theorem Pairs.step {K : ι → ι → σ → ℓ → ℓ → Prop} (h : Pairs K c)
    (first : ∀ j, j ≠ i → K i j c.shared (c.proc i) (c.proc j) →
      K i j (f i c.shared (c.proc i) a).1 (f i c.shared (c.proc i) a).2 (c.proc j))
    (second : ∀ j, j ≠ i → K j i c.shared (c.proc j) (c.proc i) →
      K j i (f i c.shared (c.proc i) a).1 (c.proc j) (f i c.shared (c.proc i) a).2)
    (neither : ∀ j k, j ≠ i → k ≠ i → j ≠ k → K j k c.shared (c.proc j) (c.proc k) →
      K j k (f i c.shared (c.proc i) a).1 (c.proc j) (c.proc k)) :
    Pairs K (step f c (i, a)) := by
  intro j k hjk
  by_cases hj : j = i
  · subst hj
    rw [step_proc_self, step_proc_other hjk.symm]
    exact first k hjk.symm (h j k hjk)
  · rw [step_proc_other hj]
    by_cases hk : k = i
    · subst hk
      rw [step_proc_self]
      exact second j hj (h j k hjk)
    · rw [step_proc_other hk]
      exact neither j k hj hk hjk (h j k hjk)

/-- Steps of one process in a row. -/
theorem foldl_own (f : ι → σ → ℓ → α → σ × ℓ) (c : Config σ ℓ ι) (i : ι) (as : List α) :
    (as.map (Prod.mk i)).foldl (step f) c =
      let r := as.foldl (fun r a => f i r.1 r.2 a) (c.shared, c.proc i)
      ⟨r.1, Function.update c.proc i r.2⟩ := by
  induction as generalizing c with
  | nil => simp only [List.map_nil, List.foldl_nil, Function.update_eq_self]
  | cons a as ih =>
    rw [List.map_cons, List.foldl_cons, List.foldl_cons, ih]
    simp only [step, Function.update_self, Function.update_idem]

end Interleave
