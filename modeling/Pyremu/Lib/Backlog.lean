import Pyremu.Lib.Interleave

/-!
# Processes with a backlog

A process carries the list of accesses it still has to make. An access changes
the shared state and may put further accesses in front of the rest. A debt of
the shared state is covered when some process still has to make an access that
pays it.
-/

namespace Backlog

open Interleave

/-- An idle process starts an operation, or a process makes its next access. -/
inductive Act (ω : Type*) where
  | start (op : ω)
  | next

variable {σ μ ω ι : Type*}

def step (steps : ω → List μ) (exec : σ → μ → σ × List μ) (g : σ) (todo : List μ) :
    Act ω → σ × List μ
  | .start op =>
    match todo with
    | [] => (g, steps op)
    | _ => (g, todo)
  | .next =>
    match todo with
    | [] => (g, [])
    | m :: rest => ((exec g m).1, (exec g m).2 ++ rest)

/-! ## One process alone -/

/-- The accesses, made one after the other, lead from `g` to `g'`. -/
inductive Completes (exec : σ → μ → σ × List μ) : σ → List μ → σ → Prop where
  | done (g : σ) : Completes exec g [] g
  | step {g g' : σ} {m : μ} {rest : List μ}
    (h : Completes exec (exec g m).1 ((exec g m).2 ++ rest) g') : Completes exec g (m :: rest) g'

variable {steps : ω → List μ} {exec : σ → μ → σ × List μ} {g g' g'' : σ} {l l' : List μ}

theorem Completes.append (h : Completes exec g l g') (h' : Completes exec g' l' g'') :
    Completes exec g (l ++ l') g'' := by
  induction h with
  | done g => exact h'
  | step _ ih =>
    have h2 := ih h'
    rw [List.append_assoc] at h2
    exact .step h2

/-! ## Debts -/

variable {c : Config σ (List μ) ι} {i : ι} {owed : σ → Prop} {pays : μ → Prop}

/-- Some process still has to make an access of the given kind. -/
def Outstanding (pays : μ → Prop) (c : Config σ (List μ) ι) : Prop := ∃ i, ∃ m ∈ c.proc i, pays m

/-- What the shared state owes will be paid. -/
def Covered (owed : σ → Prop) (pays : μ → Prop) (c : Config σ (List μ) ι) : Prop :=
  owed c.shared → Outstanding pays c

/-- A debt that was there before the step is covered by something else than an access that does
not pay. -/
theorem Covered.other {m : μ} (hc : Covered owed pays c) (howed : owed c.shared) (hm : ¬ pays m) :
    Outstanding (fun m' => pays m' ∧ m' ≠ m) c := by
  obtain ⟨j, m', hm', hpays⟩ := hc howed
  exact ⟨j, m', hm', hpays, fun h => hm (h ▸ hpays)⟩

/-- With nothing left to do, nothing is owed. -/
theorem Covered.quiet (hc : Covered owed pays c) (hq : ∀ i, c.proc i = []) : ¬ owed c.shared := by
  intro howed
  obtain ⟨j, m, hm, _⟩ := hc howed
  rw [hq j] at hm
  cases hm

/-! ## All processes -/

variable [DecidableEq ι]

/-- The machine of all processes. -/
def machine (steps : ω → List μ) (exec : σ → μ → σ × List μ) :
    Config σ (List μ) ι → ι × Act ω → Config σ (List μ) ι :=
  Interleave.step fun _ => step steps exec

theorem machine_start_idle {op : ω} (h : c.proc i = []) :
    machine steps exec c (i, .start op) = ⟨c.shared, Function.update c.proc i (steps op)⟩ := by
  simp only [machine, Interleave.step, step, h]

theorem machine_start_busy {op : ω} (h : c.proc i ≠ []) : machine steps exec c (i, .start op) = c := by
  have hstep : step steps exec c.shared (c.proc i) (.start op) = (c.shared, c.proc i) := by
    cases hp : c.proc i with
    | nil => exact absurd hp h
    | cons m rest => rfl
  simp only [machine, Interleave.step, hstep, Function.update_eq_self]

theorem machine_next_idle (h : c.proc i = []) : machine steps exec c (i, .next) = c := by
  have hstep : step steps exec c.shared (c.proc i) .next = (c.shared, c.proc i) := by
    rw [h]
    rfl
  simp only [machine, Interleave.step, hstep, Function.update_eq_self]

theorem machine_next {m : μ} {rest : List μ} (h : c.proc i = m :: rest) :
    machine steps exec c (i, .next) =
      ⟨(exec c.shared m).1, Function.update c.proc i ((exec c.shared m).2 ++ rest)⟩ := by
  simp only [machine, Interleave.step, step, h]

/-- What is to be shown of a step: nothing for the start of an operation, and the effect of one
access for a process that moves on. -/
theorem machine_cases {P : Config σ (List μ) ι → Prop} (hc : P c) (a : Act ω)
    (start : ∀ op, a = .start op → c.proc i = [] → P ⟨c.shared, Function.update c.proc i (steps op)⟩)
    (next : ∀ m rest, a = .next → c.proc i = m :: rest →
      P ⟨(exec c.shared m).1, Function.update c.proc i ((exec c.shared m).2 ++ rest)⟩) :
    P (machine steps exec c (i, a)) := by
  cases a with
  | start op =>
    by_cases h : c.proc i = []
    · rw [machine_start_idle h]
      exact start op rfl h
    · rw [machine_start_busy h]
      exact hc
  | next =>
    cases h : c.proc i with
    | nil =>
      rw [machine_next_idle h]
      exact hc
    | cons m rest =>
      rw [machine_next h]
      exact next m rest rfl h

/-- An outstanding access is only lost by being made. -/
theorem Outstanding.next {m : μ} {rest l : List μ} {g : σ} (hi : c.proc i = m :: rest)
    (h : Outstanding (fun m' => pays m' ∧ m' ≠ m) c) :
    Outstanding pays ⟨g, Function.update c.proc i (l ++ rest)⟩ := by
  obtain ⟨j, m', hm', hpays, hne⟩ := h
  refine ⟨j, m', ?_, hpays⟩
  by_cases hj : j = i
  · subst hj
    rw [hi] at hm'
    simp only [Function.update_self]
    exact List.mem_append_right _ ((List.mem_cons.mp hm').resolve_left hne)
  · simp only [Function.update_of_ne hj]
    exact hm'

/-- A debt stays covered by a step whose access leaves only debts that its own continuation, or
another access that is outstanding, pays. -/
theorem Covered.step (hc : Covered owed pays c) (a : Act ω)
    (next : ∀ m rest, a = .next → c.proc i = m :: rest → owed (exec c.shared m).1 →
      (∃ m' ∈ (exec c.shared m).2, pays m') ∨ Outstanding (fun m' => pays m' ∧ m' ≠ m) c) :
    Covered owed pays (machine steps exec c (i, a)) := by
  refine machine_cases hc a ?_ ?_
  · intro op _ hi howed
    obtain ⟨j, m, hm, hpays⟩ := hc howed
    refine ⟨j, m, ?_, hpays⟩
    have hj : j ≠ i := by
      rintro rfl
      rw [hi] at hm
      cases hm
    simp only [Function.update_of_ne hj]
    exact hm
  · intro m rest ha hi howed
    rcases next m rest ha hi howed with ⟨m', hm', hpays⟩ | hout
    · refine ⟨i, m', ?_, hpays⟩
      simp only [Function.update_self]
      exact List.mem_append_left _ hm'
    · exact hout.next hi

/-- Only accesses of the given kind are outstanding. -/
def Confined (K : μ → Prop) (c : Config σ (List μ) ι) : Prop := ∀ i, ∀ m ∈ c.proc i, K m

theorem Confined.step {K : μ → Prop} (hc : Confined K c) (a : Act ω)
    (start : ∀ op, a = .start op → ∀ m ∈ steps op, K m)
    (next : ∀ m, K m → ∀ m' ∈ (exec c.shared m).2, K m') :
    Confined K (machine steps exec c (i, a)) := by
  refine machine_cases hc a ?_ ?_
  · intro op ha _ j m hm
    by_cases hj : j = i
    · subst hj
      simp only [Function.update_self] at hm
      exact start op ha m hm
    · simp only [Function.update_of_ne hj] at hm
      exact hc j m hm
  · intro m rest _ hi j m' hm'
    by_cases hj : j = i
    · subst hj
      simp only [Function.update_self] at hm'
      have hK : ∀ m' ∈ m :: rest, K m' := fun m' hm' => hc j m' (hi ▸ hm')
      rcases List.mem_append.mp hm' with hm' | hm'
      · exact next m (hK m List.mem_cons_self) m' hm'
      · exact hK m' (List.mem_cons_of_mem m hm')
    · simp only [Function.update_of_ne hj] at hm'
      exact hc j m' hm'

end Backlog
