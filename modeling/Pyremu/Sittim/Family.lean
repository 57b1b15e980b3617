import Pyremu.Sittim.Calm

/-!
# Families of processes

What the process table is for: a process is created by one parent, ends once
and is reaped once. An entry names its parent by slot; while the parent has an
entry of its own, that is the slot it is in. Afterwards the slot may belong to
anybody.
-/

namespace Pyremu.Sittim

/-- The process an event is about. -/
def ProcEvent.pid : ProcEvent → Word
  | .created _ c => c
  | .exited c _ => c
  | .reaped c => c

/-- Process entries with their history, and the process of each thread that exists. -/
structure Family where
  kin : ProcSlot → Kin
  log : List ProcEvent
  nextPid : Word
  owner : ThreadId → Option ProcSlot

namespace Family

variable (f : Family)

/-- A thread starts in a process. -/
def spawn (t : ThreadId) (p : ProcSlot) : Family := { f with owner := Function.update f.owner t (some p) }

/-- A thread ends. -/
def leave (t : ThreadId) : Family := { f with owner := Function.update f.owner t none }

/-- The process in slot `parent` creates one in slot `child`. -/
def fork (parent child : ProcSlot) (t : ThreadId) : Family where
  kin := Function.update f.kin child ⟨true, f.nextPid, (f.kin parent).pid, false, 0, some parent⟩
  log := .created (f.kin parent).pid f.nextPid :: f.log
  nextPid := f.nextPid + 1
  owner := Function.update f.owner t (some child)

/-- The process in slot `p` ends with its threads. -/
def exit (p : ProcSlot) (code : Word) : Family where
  kin := Function.update f.kin p { f.kin p with exited := true, exitCode := code }
  log := .exited (f.kin p).pid code :: f.log
  nextPid := f.nextPid
  owner t := if f.owner t = some p then none else f.owner t

/-- The entry in slot `p` is given back. -/
def reap (p : ProcSlot) : Family where
  kin := Function.update f.kin p { f.kin p with used := false }
  log := .reaped (f.kin p).pid :: f.log
  nextPid := f.nextPid
  owner := f.owner

/-- The table agrees with the history. -/
structure Ok : Prop where
  fresh : ∀ p, (f.kin p).pid.toNat < f.nextPid.toNat
  known : ∀ e ∈ f.log, e.pid.toNat < f.nextPid.toNat
  positive : ∀ p, (f.kin p).used = true → (f.kin p).pid ≠ 0
  small : f.nextPid.toNat < 2 ^ 63
  unique : ∀ p q, (f.kin p).used = true → (f.kin q).pid = (f.kin p).pid → q = p
  boot : (f.kin 0).used = true ∧ (f.kin 0).exited = false ∧ (f.kin 0).parent = none
  /-- A parent that has an entry is in the slot its children name. -/
  child : ∀ p, p ≠ 0 → (f.kin p).used = true →
    .created (f.kin p).ppid (f.kin p).pid ∈ f.log ∧ (f.kin p).ppid.toNat < f.nextPid.toNat ∧
      ∃ q, (f.kin p).parent = some q ∧ ∀ r, (f.kin r).used = true → (f.kin r).pid = (f.kin p).ppid → r = q
  kept : ∀ a c, .created a c ∈ f.log → .reaped c ∉ f.log →
    ∃ p, p ≠ 0 ∧ (f.kin p).used = true ∧ (f.kin p).pid = c ∧ (f.kin p).ppid = a
  notReaped : ∀ p, (f.kin p).used = true → .reaped (f.kin p).pid ∉ f.log
  dead : ∀ p, (f.kin p).used = true → (f.kin p).exited = true →
    ∀ code, .exited (f.kin p).pid code ∈ f.log ↔ code = (f.kin p).exitCode
  living : ∀ p, (f.kin p).used = true → (f.kin p).exited = false →
    ∀ code, .exited (f.kin p).pid code ∉ f.log
  owner : ∀ t p, f.owner t = some p → (f.kin p).used = true ∧ (f.kin p).exited = false

variable {f}

theorem Ok.spawn (h : f.Ok) {t : ThreadId} {p : ProcSlot}
    (hp : (f.kin p).used = true ∧ (f.kin p).exited = false) : (f.spawn t p).Ok := by
  constructor
  case owner =>
    intro u q hu
    by_cases hut : u = t
    · subst hut
      simp only [Family.spawn, Function.update_self] at hu
      exact Option.some.inj hu ▸ hp
    · simp only [Family.spawn, Function.update_of_ne hut] at hu
      exact h.owner u q hu
  case fresh => exact h.fresh
  case known => exact h.known
  case positive => exact h.positive
  case small => exact h.small
  case unique => exact h.unique
  case boot => exact h.boot
  case child => exact h.child
  case kept => exact h.kept
  case notReaped => exact h.notReaped
  case dead => exact h.dead
  case living => exact h.living

theorem Ok.leave (h : f.Ok) (t : ThreadId) : (f.leave t).Ok := by
  constructor
  case owner =>
    intro u q hu
    by_cases hut : u = t
    · subst hut
      simp only [Family.leave, Function.update_self] at hu
      cases hu
    · simp only [Family.leave, Function.update_of_ne hut] at hu
      exact h.owner u q hu
  case fresh => exact h.fresh
  case known => exact h.known
  case positive => exact h.positive
  case small => exact h.small
  case unique => exact h.unique
  case boot => exact h.boot
  case child => exact h.child
  case kept => exact h.kept
  case notReaped => exact h.notReaped
  case dead => exact h.dead
  case living => exact h.living

/-- A new process takes a free slot. -/
theorem Ok.fork (h : f.Ok) {parent child : ProcSlot} (t : ThreadId)
    (hparent : (f.kin parent).used = true) (hchild : (f.kin child).used = false)
    (hsmall : f.nextPid.toNat + 1 < 2 ^ 63) : (f.fork parent child t).Ok := by
  have hne : parent ≠ child := by
    rintro rfl
    rw [hparent] at hchild
    cases hchild
  have hself : (f.fork parent child t).kin child =
      ⟨true, f.nextPid, (f.kin parent).pid, false, 0, some parent⟩ := Function.update_self ..
  have hother : ∀ q, q ≠ child → (f.fork parent child t).kin q = f.kin q := fun q hq =>
    Function.update_of_ne hq ..
  have hused : ∀ q, (f.kin q).used = true → q ≠ child := by
    rintro q hq rfl
    rw [hq] at hchild
    cases hchild
  have hnext : (f.nextPid + 1).toNat = f.nextPid.toNat + 1 := by
    rw [BitVec.toNat_add]
    exact Nat.mod_eq_of_lt (by simp; omega)
  have hpid : ∀ q, (f.kin q).pid ≠ f.nextPid := by
    intro q he
    have hq := h.fresh q
    rw [he] at hq
    omega
  have hlog : ∀ e ∈ f.log, e.pid ≠ f.nextPid := by
    intro e he heq
    have hq := h.known e he
    rw [heq] at hq
    omega
  constructor
  case fresh =>
    intro q
    show _ < (f.nextPid + 1).toNat
    by_cases hq : q = child
    · rw [hq, hself]
      show f.nextPid.toNat < _
      omega
    · rw [hother q hq]
      have := h.fresh q
      omega
  case known =>
    intro e he
    show _ < (f.nextPid + 1).toNat
    rcases List.mem_cons.mp he with rfl | he
    · simp only [ProcEvent.pid]
      omega
    · have := h.known e he
      omega
  case positive =>
    intro q hq
    by_cases hqc : q = child
    · rw [hqc, hself]
      intro hz
      have hlt := h.fresh parent
      rw [show f.nextPid = 0 from hz] at hlt
      exact absurd hlt (Nat.not_lt_zero _)
    · rw [hother q hqc] at hq ⊢
      exact h.positive q hq
  case small =>
    show (f.nextPid + 1).toNat < 2 ^ 63
    omega
  case unique =>
    intro p q hp hq
    by_cases hpc : p = child <;> by_cases hqc : q = child
    · rw [hpc, hqc]
    · rw [hpc, hself, hother q hqc] at hq
      exact absurd hq (hpid q)
    · rw [hqc, hself, hother p hpc] at hq
      exact absurd hq.symm (hpid p)
    · rw [hother p hpc] at hp hq
      rw [hother q hqc] at hq
      exact h.unique p q hp hq
  case boot =>
    rw [hother 0 (hused 0 h.boot.1)]
    exact h.boot
  case child =>
    intro p hp hu
    have hlt : (f.fork parent child t).nextPid.toNat = f.nextPid.toNat + 1 := hnext
    by_cases hpc : p = child
    · rw [hpc, hself, hlt]
      refine ⟨List.mem_cons_self .., Nat.lt_succ_of_lt (h.fresh parent), parent, rfl, fun r hr he => ?_⟩
      by_cases hrc : r = child
      · rw [hrc, hself] at he
        exact absurd he.symm (hpid parent)
      · rw [hother r hrc] at hr he
        exact h.unique parent r hparent he
    · rw [hother p hpc] at hu ⊢
      obtain ⟨hc, hpp, q, hq, hrq⟩ := h.child p hp hu
      rw [hlt]
      refine ⟨List.mem_cons_of_mem _ hc, Nat.lt_succ_of_lt hpp, q, hq, fun r hr he => ?_⟩
      by_cases hrc : r = child
      · rw [hrc, hself] at he
        rw [← show f.nextPid = (f.kin p).ppid from he] at hpp
        exact absurd hpp (Nat.lt_irrefl _)
      · rw [hother r hrc] at hr he
        exact hrq r hr he
  case kept =>
    intro a c hc hr
    rcases List.mem_cons.mp hc with he | hc
    · obtain ⟨rfl, rfl⟩ := ProcEvent.created.inj he
      refine ⟨child, ?_, ?_, ?_, ?_⟩
      · rintro rfl
        rw [h.boot.1] at hchild
        cases hchild
      all_goals rw [hself]
    · obtain ⟨p, hp, hu, hpc, hpa⟩ := h.kept a c hc fun hm => hr (List.mem_cons_of_mem _ hm)
      refine ⟨p, hp, ?_⟩
      rw [hother p (hused p hu)]
      exact ⟨hu, hpc, hpa⟩
  case notReaped =>
    intro p hu hr
    rcases List.mem_cons.mp hr with he | hr
    · cases he
    · by_cases hpc : p = child
      · rw [hpc, hself] at hr
        exact hlog _ hr rfl
      · rw [hother p hpc] at hu hr
        exact h.notReaped p hu hr
  case dead =>
    intro p hu hd code
    by_cases hpc : p = child
    · rw [hpc, hself] at hd
      cases hd
    · rw [hother p hpc] at hu hd ⊢
      rw [← h.dead p hu hd code]
      simp only [Family.fork, List.mem_cons, reduceCtorEq, false_or]
  case living =>
    intro p hu hd code hm
    rcases List.mem_cons.mp hm with he | hm
    · cases he
    · by_cases hpc : p = child
      · rw [hpc, hself] at hm
        exact hlog _ hm rfl
      · rw [hother p hpc] at hu hd hm
        exact h.living p hu hd code hm
  case owner =>
    intro u q hu
    by_cases hut : u = t
    · subst hut
      simp only [Family.fork, Function.update_self] at hu
      rw [← Option.some.inj hu, hself]
      exact ⟨rfl, rfl⟩
    · simp only [Family.fork, Function.update_of_ne hut] at hu
      have ho := h.owner u q hu
      rw [hother q (hused q ho.1)]
      exact ho

/-- A process that has not ended may end. -/
theorem Ok.exit (h : f.Ok) {p : ProcSlot} (code : Word) (hp : p ≠ 0) (hused : (f.kin p).used = true)
    (hlive : (f.kin p).exited = false) : (f.exit p code).Ok := by
  have hself : (f.exit p code).kin p = { f.kin p with exited := true, exitCode := code } :=
    Function.update_self ..
  have hother : ∀ q, q ≠ p → (f.exit p code).kin q = f.kin q := fun q hq => Function.update_of_ne hq ..
  have hpid : ∀ q, ((f.exit p code).kin q).pid = (f.kin q).pid := by
    intro q
    by_cases hq : q = p
    · rw [hq, hself]
    · rw [hother q hq]
  have hu : ∀ q, ((f.exit p code).kin q).used = (f.kin q).used := by
    intro q
    by_cases hq : q = p
    · rw [hq, hself]
    · rw [hother q hq]
  have hpar : ∀ q, ((f.exit p code).kin q).parent = (f.kin q).parent ∧
      ((f.exit p code).kin q).ppid = (f.kin q).ppid := by
    intro q
    by_cases hq : q = p
    · rw [hq, hself]
      exact ⟨rfl, rfl⟩
    · rw [hother q hq]
      exact ⟨rfl, rfl⟩
  constructor
  case fresh =>
    intro q
    rw [hpid]
    exact h.fresh q
  case known =>
    intro e he
    rcases List.mem_cons.mp he with rfl | he
    · exact h.fresh p
    · exact h.known e he
  case positive =>
    intro q
    rw [hu, hpid]
    exact h.positive q
  case small => exact h.small
  case unique =>
    intro q r
    rw [hu, hpid, hpid]
    exact h.unique q r
  case boot =>
    rw [hother 0 hp.symm]
    exact h.boot
  case child =>
    intro q hq
    rw [hu, hpid, (hpar q).1, (hpar q).2]
    intro huq
    obtain ⟨hc, hpp, r, hr, hrq⟩ := h.child q hq huq
    refine ⟨List.mem_cons_of_mem _ hc, hpp, r, hr, fun u => ?_⟩
    rw [hu, hpid]
    exact hrq u
  case kept =>
    intro a c hc hr
    have hc : ProcEvent.created a c ∈ f.log := by
      rcases List.mem_cons.mp hc with he | hc
      · cases he
      · exact hc
    obtain ⟨q, hq, huq, hqc, hqa⟩ := h.kept a c hc fun hm => hr (List.mem_cons_of_mem _ hm)
    refine ⟨q, hq, ?_⟩
    rw [hu, hpid, (hpar q).2]
    exact ⟨huq, hqc, hqa⟩
  case notReaped =>
    intro q huq hr
    rw [hu] at huq
    rw [hpid] at hr
    rcases List.mem_cons.mp hr with he | hr
    · cases he
    · exact h.notReaped q huq hr
  case dead =>
    intro q huq hd c
    rw [hu] at huq
    rw [hpid]
    by_cases hq : q = p
    · subst hq
      rw [hself]
      simp only [Family.exit, List.mem_cons, ProcEvent.exited.injEq, true_and, h.living q huq hlive c,
        or_false]
    · rw [hother q hq] at hd ⊢
      rw [← h.dead q huq hd c]
      have hne : (f.kin q).pid ≠ (f.kin p).pid := fun he => hq (h.unique p q hused he)
      simp only [Family.exit, List.mem_cons, ProcEvent.exited.injEq, hne, false_and, false_or]
  case living =>
    intro q huq hd c hm
    rw [hu] at huq
    rw [hpid] at hm
    by_cases hq : q = p
    · rw [hq, hself] at hd
      cases hd
    · rw [hother q hq] at hd
      rcases List.mem_cons.mp hm with he | hm
      · obtain ⟨he, _⟩ := ProcEvent.exited.inj he
        exact hq (h.unique p q hused he)
      · exact h.living q huq hd c hm
  case owner =>
    intro t q ht
    simp only [Family.exit] at ht
    split_ifs at ht with ho
    have hq : q ≠ p := by
      rintro rfl
      exact ho ht
    rw [hother q hq]
    exact h.owner t q ht

/-- A process that has ended may be reaped. -/
theorem Ok.reap (h : f.Ok) {p : ProcSlot} (hp : p ≠ 0) (hused : (f.kin p).used = true)
    (hdead : (f.kin p).exited = true) : (f.reap p).Ok := by
  have hself : (f.reap p).kin p = { f.kin p with used := false } := Function.update_self ..
  have hother : ∀ q, q ≠ p → (f.reap p).kin q = f.kin q := fun q hq => Function.update_of_ne hq ..
  have hpid : ∀ q, ((f.reap p).kin q).pid = (f.kin q).pid := by
    intro q
    by_cases hq : q = p
    · rw [hq, hself]
    · rw [hother q hq]
  have hne : ∀ q, ((f.reap p).kin q).used = true → q ≠ p := by
    rintro q hq rfl
    rw [hself] at hq
    cases hq
  have hdiff : ∀ q, q ≠ p → (f.kin q).pid ≠ (f.kin p).pid := fun q hq he => hq (h.unique p q hused he)
  constructor
  case fresh =>
    intro q
    rw [hpid]
    exact h.fresh q
  case known =>
    intro e he
    rcases List.mem_cons.mp he with rfl | he
    · exact h.fresh p
    · exact h.known e he
  case positive =>
    intro q hq
    have hqp := hne q hq
    rw [hother q hqp] at hq ⊢
    exact h.positive q hq
  case small => exact h.small
  case unique =>
    intro q r hq hr
    rw [hpid, hpid] at hr
    rw [hother q (hne q hq)] at hq
    exact h.unique q r hq hr
  case boot =>
    rw [hother 0 hp.symm]
    exact h.boot
  case child =>
    intro q hq hu
    have hqp := hne q hu
    rw [hother q hqp] at hu ⊢
    obtain ⟨hc, hpp, r, hr, hrq⟩ := h.child q hq hu
    refine ⟨List.mem_cons_of_mem _ hc, hpp, r, hr, fun u hu he => ?_⟩
    have hup := hne u hu
    rw [hother u hup] at hu he
    exact hrq u hu he
  case kept =>
    intro a c hc hr
    have hc : ProcEvent.created a c ∈ f.log := by
      rcases List.mem_cons.mp hc with he | hc
      · cases he
      · exact hc
    obtain ⟨q, hq, huq, hqc, hqa⟩ := h.kept a c hc fun hm => hr (List.mem_cons_of_mem _ hm)
    have hqp : q ≠ p := by
      rintro rfl
      rw [← hqc] at hr
      exact hr (List.mem_cons_self ..)
    refine ⟨q, hq, ?_⟩
    rw [hother q hqp]
    exact ⟨huq, hqc, hqa⟩
  case notReaped =>
    intro q hu hr
    have hqp := hne q hu
    rw [hother q hqp] at hu hr
    rcases List.mem_cons.mp hr with he | hr
    · exact hdiff q hqp (ProcEvent.reaped.inj he)
    · exact h.notReaped q hu hr
  case dead =>
    intro q hu hd c
    have hqp := hne q hu
    rw [hother q hqp] at hu hd ⊢
    rw [← h.dead q hu hd c]
    simp only [Family.reap, List.mem_cons, reduceCtorEq, false_or]
  case living =>
    intro q hu hd c hm
    have hqp := hne q hu
    rw [hother q hqp] at hu hd hm
    rcases List.mem_cons.mp hm with he | hm
    · cases he
    · exact h.living q hu hd c hm
  case owner =>
    intro t q ht
    have ho := h.owner t q ht
    have hqp : q ≠ p := by
      rintro rfl
      rw [hdead] at ho
      cases ho.2
    rw [hother q hqp]
    exact ho

/-- What can happen to a family. -/
inductive Step (f : Family) : Family → Prop where
  | stay : Step f f
  | spawn (t : ThreadId) (p : ProcSlot) (live : (f.kin p).used = true ∧ (f.kin p).exited = false) :
      Step f (f.spawn t p)
  | leave (t : ThreadId) : Step f (f.leave t)
  | fork (parent child : ProcSlot) (t : ThreadId) (used : (f.kin parent).used = true)
      (unused : (f.kin child).used = false) (small : f.nextPid.toNat + 1 < 2 ^ 63) :
      Step f (f.fork parent child t)
  | exit (p : ProcSlot) (code : Word) (hp : p ≠ 0) (used : (f.kin p).used = true)
      (live : (f.kin p).exited = false) : Step f (f.exit p code)
  | reap (p : ProcSlot) (hp : p ≠ 0) (used : (f.kin p).used = true) (dead : (f.kin p).exited = true) :
      Step f (f.reap p)

theorem Step.ok {f' : Family} (hs : Step f f') (h : f.Ok) : f'.Ok := by
  cases hs with
  | stay => exact h
  | spawn t p live => exact h.spawn live
  | leave t => exact h.leave t
  | fork parent child t used unused small => exact h.fork t used unused small
  | exit p code hp used live => exact h.exit code hp used live
  | reap p hp used dead => exact h.reap hp used dead

/-- The history only grows. -/
theorem Step.log {f' : Family} (hs : Step f f') : f.log <:+ f'.log := by
  cases hs with
  | stay | spawn | leave => exact List.suffix_refl _
  | fork | exit | reap => exact List.suffix_cons _ _

end Family

/-- The family a runtime keeps. -/
def Runtime.family (s : Runtime) : Family where
  kin p := (s.procs p).kin
  log := s.log
  nextPid := s.nextPid
  owner t := if (s.threads t).state = .free then none else some (s.threads t).proc

/-- A calm handler keeps the family as it is. -/
theorem Calm.family {s s' : Runtime} (h : Calm s s') : s'.family = s.family := by
  have hkin : (fun p => (s'.procs p).kin) = fun p => (s.procs p).kin := funext h.kin
  have howner : s'.family.owner = s.family.owner := by
    funext t
    simp only [Runtime.family, h.live, h.proc]
  rw [Runtime.family, Runtime.family, Family.mk.injEq]
  exact ⟨hkin, h.log, h.nextPid, howner⟩

end Pyremu.Sittim
