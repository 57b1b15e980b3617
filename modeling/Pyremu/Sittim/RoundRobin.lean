import Pyremu.Sittim.Orderly
import Pyremu.Sittim.Wait4

/-!
# Round robin

In user mode one thread has the hart: it is the only one that is `running`, and
the root table is that of its process. A thread that can run is passed over
less often than there are slots between it and the running one, whatever the
others do, unless new threads are made.
-/

namespace Pyremu.Sittim

open Sweep

/-! ## Steps inside a trap -/

section Steps

variable {m : Machine} {a : Act}

/-- Whatever the clock says. -/
theorem step_does_always (m : Machine) (a : Act) : Does (BitVec.allOnes 64) m a (step m a).rt := by
  refine step_does m a fun v _ => ?_
  have hv := v.isLt
  rw [BitVec.le_def, BitVec.toNat_allOnes]
  omega

/-- Only the way out of a trap is a switch, and only `clone` makes a thread. -/
theorem step_orderly (hc : a.clones = false) (hl : ∀ next, m.phase ≠ .leave next) : Orderly m.rt (step m a).rt := by
  cases step_does_always m a with
  | moves o entered handled => exact (entered.orderly.trans (Runtime.armed_orderly o)).trans handled.orderly
  | spawns clones => exact Bool.noConfusion (clones.symm.trans hc)
  | leaves phase => exact absurd phase (hl _)

theorem step_steady (h : m.Sound) (hf : m.phase.isLive = true → m.rt.family.Ok)
    (hl : ∀ next, m.phase ≠ .leave next) : Steady m.rt (step m a).rt := by
  cases step_does_always m a with
  | moves o entered handled =>
    exact ((entered.orderly.trans (Runtime.armed_orderly o)).trans handled.orderly).toSteady
  | @spawns e _ hp made =>
    rw [Machine.Sound, hp] at h
    have he := Runtime.AtUser.enter h e true
    have hfam : (m.rt.enter e true).family.Ok := (Runtime.enter_calm e true).family ▸ hf (by rw [hp]; rfl)
    have henter : Orderly m.rt (m.rt.enter e true) := (@Runtime.enter_moves 0 m.rt e true).orderly
    exact henter.toSteady.trans (made.steady (he.currentLives hfam).1)
  | leaves phase => exact absurd phase (hl _)

end Steps

/-! ## Whose the hart is -/

/-- The running thread has the hart for itself and its process, and nobody belongs to a process that is gone. -/
structure Runtime.InOrder (s : Runtime) : Prop where
  canRun : (s.threads s.current).state.canRun = true
  alone : ∀ t, (s.threads t).state = .running → t = s.current
  owner : (s.threads s.current).proc = s.currentProc
  space : s.rootPa = (s.procs s.currentProc).rootPa
  alive : ∀ t, (s.threads t).state ≠ .free →
    (s.procs (s.threads t).proc).used = true ∧ (s.procs (s.threads t).proc).exited = false

/-- The root table belongs to the current process, and only the current thread may be `running`. -/
structure Runtime.Housed (s : Runtime) : Prop where
  alone : ∀ t, (s.threads t).state = .running → t = s.current
  space : s.rootPa = (s.procs s.currentProc).rootPa

namespace Runtime

variable {s s' : Runtime}

theorem Housed.steady (h : s.Housed) (hs : Steady s s') : s'.Housed where
  alone t ht := (h.alone t (hs.running t ht)).trans hs.current.symm
  space := calc
    s'.rootPa = s.rootPa := hs.rootPa
    _ = (s.procs s.currentProc).rootPa := h.space
    _ = (s'.procs s.currentProc).rootPa := hs.root.symm
    _ = (s'.procs s'.currentProc).rootPa := by rw [hs.currentProc]

theorem activate_space (p : ProcSlot) (h : s.rootPa = (s.procs s.currentProc).rootPa) :
    (s.activate p).rootPa = ((s.activate p).procs p).rootPa := by
  rw [activate]
  split_ifs with hp
  · rw [← hp]
    exact h
  · rfl

/-- Nobody is `running` while the hart changes hands. -/
theorem Housed.saveCurrent (h : s.Housed) (next : Word) (t : ThreadId) :
    ((s.saveCurrent next).threads t).state ≠ .running := by
  rw [saveCurrent_threads]
  by_cases hc : t = s.current ∧ (s.threads s.current).state ≠ .free
  · rw [if_pos hc]
    dsimp only
    by_cases hr : (s.threads t).state = .running
    · rw [if_pos hr]
      exact ThreadState.noConfusion
    · rwa [if_neg hr]
  · rw [if_neg hc]
    intro hr
    have ht := h.alone t hr
    rw [ht] at hr
    exact hc ⟨ht, fun hf => ThreadState.noConfusion (hr.symm.trans hf)⟩

theorem Housed.lastly (h : s.Housed) (next : Word) : (s.lastly next).Housed := by
  cases hp : s.pendingTarget with
  | none =>
    rw [lastly_none hp]
    exact ⟨h.alone, h.space⟩
  | some target =>
    have hspace : (s.saveCurrent next).rootPa =
        ((s.saveCurrent next).procs (s.saveCurrent next).currentProc).rootPa := by
      rw [saveCurrent_rest]
      exact h.space
    rw [lastly_some hp]
    constructor
    case alone =>
      intro t ht
      rw [switchTo_threads] at ht
      split_ifs at ht with htarget
      · rw [htarget]
        simp only [switchTo, writeSstatus, (activate_rest _).2.1, setThread]
      · exact absurd ht (h.saveCurrent next t)
    case space =>
      have hproc := (switchTo_atUser (s := s.saveCurrent next) target).proc
      simp only [switchTo, writeSstatus]
      rw [activate_currentProc]
      exact activate_space _ hspace

theorem InOrder.of_housed (hu : s.AtUser) (hf : s.family.Ok) (hh : s.Housed) : s.InOrder where
  canRun := hu.canRun
  alone := hh.alone
  owner := hu.proc
  space := hh.space
  alive t ht := hf.owner t _ (family_owner_some.mpr ⟨ht, rfl⟩)

end Runtime

/-- The invariant of a run with the tables, and with the hart. -/
structure Machine.Settled (m : Machine) : Prop where
  kept : m.Kept
  housed : m.phase.isLive = true → m.rt.Housed

theorem step_housed {m : Machine} (a : Act) (h : m.Settled) (hl : m.phase.isLive = true) : (step m a).rt.Housed := by
  have hh := h.housed hl
  by_cases hleave : ∃ next, m.phase = .leave next
  · obtain ⟨next, hp⟩ := hleave
    cases a with
    | leave =>
      rw [step, hp]
      exact hh.lastly next
    | ecall | timer | software | otherInterrupt | fault | callFault | interruptFault | netEvent | netFault | deliver =>
      simpa only [step, hp, reduceCtorEq, if_false] using hh
  · exact hh.steady (step_steady h.kept.sound h.kept.family fun next hp => hleave ⟨next, hp⟩)

theorem step_settled (m : Machine) (a : Act) (h : m.Settled) (hsmall : m.rt.nextPid.toNat + 1 < 2 ^ 63) :
    (step m a).Settled := by
  cases hl : m.phase.isLive with
  | false =>
    rw [step_of_not_isLive hl]
    exact h
  | true => exact ⟨step_kept m a h.kept hsmall, fun _ => step_housed a h hl⟩

theorem boot_housed (entry kstackTop rootPa sstatus : Word) (ctx : TaMemCtx) :
    (boot entry kstackTop rootPa sstatus ctx).rt.Housed := by
  refine ⟨fun t ht => ?_, rfl⟩
  by_contra hne
  have hfree : (boot entry kstackTop rootPa sstatus ctx).rt.threads t = .freed := if_neg hne
  rw [hfree] at ht
  cases ht

/-- While pids last, whenever user code runs, one thread has the hart, and the root table is that of a process that
is alive and that it belongs to. -/
theorem user_mode_in_order (entry kstackTop rootPa sstatus : Word) (ctx : TaMemCtx) (acts : List Act)
    (hpids : Run.Along step (fun m _ => m.rt.nextPid.toNat + 1 < 2 ^ 63)
      (boot entry kstackTop rootPa sstatus ctx) acts) :
    Run.Always step (fun m => m.phase = .user → m.rt.InOrder) (boot entry kstackTop rootPa sstatus ctx) acts := by
  refine Run.always_of_invariant (I := Machine.Settled) step_settled (fun m hm hp => ?_)
    ⟨boot_kept _ _ _ _ _, fun _ => boot_housed _ _ _ _ _⟩ hpids
  have hlive : m.phase.isLive = true := by rw [hp]; rfl
  have hu := hm.kept.sound
  rw [Machine.Sound, hp] at hu
  exact .of_housed hu (hm.kept.family hlive) (hm.housed hlive)

theorem user_mode_in_order_reapActs :
    Run.Always step (fun m => m.phase = .user → m.rt.InOrder) quietBoot reapActs :=
  user_mode_in_order 0x10000 0x2000 0x80200000 0 ⟨0, 0, 0, 0⟩ reapActs (by decide)

/-! ## Waiting for the hart -/

/-- The thread can run, and another one has the hart. -/
def Runtime.isReady (s : Runtime) (t : ThreadId) : Bool := s.isRunnable t && decide (t ≠ s.current)

/-- The act hands the hart to another thread. -/
def switches (m : Machine) : Act → Bool
  | .leave =>
    match m.phase with
    | .leave _ => m.rt.pendingTarget.isSome
    | _ => false
  | _ => false

/-- The act is a timer interrupt that is taken. -/
def ticks (m : Machine) : Act → Bool
  | .timer _ _ _ => decide (m.phase = .user)
  | _ => false

/-- A successor that is registered is another thread, and not behind `t`. -/
def Runtime.NextBefore (s : Runtime) (t : ThreadId) : Prop :=
  ∀ n, s.pendingTarget = some n → n ≠ s.current ∧ gap 32 s.current n ≤ gap 32 s.current t

/-- `t` waits, and its turn is not missed. -/
structure Machine.Awaits (t : ThreadId) (m : Machine) : Prop where
  sound : m.Sound
  ready : m.rt.isReady t = true
  next : m.phase.isLive = true → m.rt.NextBefore t

section Waiting

variable {t : ThreadId} {m : Machine} {a : Act}

theorem isReady_iff {s : Runtime} : s.isReady t = true ↔ s.isRunnable t = true ∧ t ≠ s.current := by
  rw [Runtime.isReady, Bool.and_eq_true, decide_eq_true_eq]

theorem Runtime.NextBefore.orderly {s s' : Runtime} (h : s.NextBefore t) (ho : Orderly s s')
    (hs : s.isReady t = true) (hs' : s'.isReady t = true) : s'.NextBefore t := by
  intro n hn
  rw [ho.current]
  rcases ho.next n hn with hp | hnear
  · exact h n hp
  · rw [isReady_iff] at hs hs'
    exact ⟨hnear.other, hnear.near t hs.2 hs.1 hs'.1⟩

/-- A switch that does not reach `t` comes closer to it. -/
theorem lastly_closer {s : Runtime} {n : ThreadId} (next : Word) (hn : s.pendingTarget = some n)
    (hgap : gap 32 s.current n ≤ gap 32 s.current t) (hcur : n ≠ s.current) :
    gap 32 (s.lastly next).current t < gap 32 s.current t := by
  have hcurrent : (s.lastly next).current = n := by
    rw [Runtime.lastly_some hn]
    simp only [Runtime.switchTo, Runtime.writeSstatus, (Runtime.activate_rest _).2.1, Runtime.setThread]
  have hadd := gap_add hgap
  have hpos := gap_pos hcur
  rw [hcurrent]
  omega

/-- Where the hart leaves a trap, or stays inside one. -/
theorem step_switches (hc : a.clones = false) :
    (Orderly m.rt (step m a).rt ∧ switches m a = false) ∨
      ∃ next, m.phase = .leave next ∧ a = .leave ∧ (step m a).rt = m.rt.lastly next := by
  by_cases hleave : ∃ next, m.phase = .leave next
  · obtain ⟨next, hp⟩ := hleave
    cases a with
    | leave => exact .inr ⟨next, hp, rfl, by rw [step, hp]; rfl⟩
    | ecall | timer | software | otherInterrupt | fault | callFault | interruptFault | netEvent | netFault | deliver =>
      refine .inl ⟨?_, rfl⟩
      simpa only [step, hp, reduceCtorEq, if_false] using Orderly.refl m.rt
  · have hno : ∀ next, m.phase ≠ .leave next := fun next hp => hleave ⟨next, hp⟩
    refine .inl ⟨step_orderly hc hno, ?_⟩
    cases a with
    | leave =>
      rw [switches]
      split
      · rename_i next hp
        exact absurd hp (hno next)
      · rfl
    | ecall | timer | software | otherInterrupt | fault | callFault | interruptFault | netEvent | netFault | deliver =>
      rfl

theorem Machine.Awaits.step (h : m.Awaits t) (hc : a.clones = false) (hr : (step m a).rt.isReady t = true) :
    (step m a).Awaits t := by
  refine ⟨step_sound m a h.sound, hr, fun hl => ?_⟩
  have hlive : m.phase.isLive = true := by
    by_contra hdead
    rw [step_of_not_isLive (Bool.eq_false_of_not_eq_true hdead)] at hl
    exact hdead hl
  rcases step_switches (m := m) hc with ⟨ho, -⟩ | ⟨next, hp, rfl, hrt⟩
  · exact (h.next hlive).orderly ho h.ready hr
  · -- after a switch nobody is registered
    have hs := h.sound
    rw [Machine.Sound, hp] at hs
    intro n hn
    rw [hrt, (Runtime.InKernel.lastly hs next).pending] at hn
    cases hn

/-- Every switch brings the turn of `t` closer, and nothing puts it off. -/
theorem Machine.Awaits.closer (h : m.Awaits t) (hc : a.clones = false) :
    (switches m a).toNat + gap 32 (Sittim.step m a).rt.current t ≤ gap 32 m.rt.current t := by
  rcases step_switches (m := m) hc with ⟨ho, hno⟩ | ⟨next, hp, rfl, hrt⟩
  · rw [hno, ho.current, Bool.toNat_false, Nat.zero_add]
  · rw [hrt]
    have hs : switches m .leave = m.rt.pendingTarget.isSome := by
      rw [switches, hp]
    rw [hs]
    cases hn : m.rt.pendingTarget with
    | none =>
      rw [Runtime.lastly_none hn]
      exact (Nat.zero_add _).le
    | some n =>
      obtain ⟨hother, hgap⟩ := h.next (by rw [hp]; rfl) n hn
      have hlt := lastly_closer next hn hgap hother
      rw [Option.isSome_some, Bool.toNat_true]
      omega

/-- A timer interrupt finds a successor when there is one. -/
theorem timerInterrupt_pending {s : Runtime} {now tickNow : Word} (hr : (s.timerInterrupt now tickNow).isReady t = true) :
    (s.timerInterrupt now tickNow).pendingTarget.isSome = true := by
  rw [isReady_iff] at hr
  rw [Runtime.timerInterrupt, Runtime.schedYieldCurrent] at hr ⊢
  split at hr
  · rfl
  · rename_i hnone
    rw [findBehind_none.mp hnone t hr.2] at hr
    cases hr.1

/-- A timer interrupt registers a successor, and only a switch takes it away. -/
theorem Machine.Awaits.owes (h : m.Awaits t) (hc : a.clones = false) (hr : (Sittim.step m a).rt.isReady t = true) :
    (ticks m a).toNat + m.rt.pendingTarget.isSome.toNat ≤
      (switches m a).toNat + (Sittim.step m a).rt.pendingTarget.isSome.toNat := by
  rcases step_switches (m := m) hc with ⟨ho, hno⟩ | ⟨next, hp, rfl, hrt⟩
  · cases ht : ticks m a with
    | false =>
      have hle := Bool.le_iff_imp.mpr ho.pending
      rw [hno, Bool.toNat_false, Nat.zero_add, Nat.zero_add]
      exact Bool.toNat_le_toNat hle
    | true =>
      cases a with
      | timer e now tickNow =>
        have hp : m.phase = .user := of_decide_eq_true ht
        have hs := h.sound
        rw [Machine.Sound, hp] at hs
        rw [Sittim.step, if_pos hp] at hr ⊢
        rw [Runtime.AtUser.pending hs, timerInterrupt_pending hr]
        exact Nat.le_add_left ..
      | leave | ecall | software | otherInterrupt | fault | callFault | interruptFault | netEvent | netFault | deliver =>
        cases ht
  · have hs : switches m .leave = m.rt.pendingTarget.isSome := by
      rw [switches, hp]
    rw [hs]
    exact (Nat.zero_add _).le.trans (Nat.le_add_right ..)

end Waiting

/-- From wherever user code runs, while a thread stays ready and no thread is made, others get the hart less often
than there are slots up to it, and there is at most one timer interrupt more. -/
theorem ready_thread_next (entry kstackTop rootPa sstatus : Word) (ctx : TaMemCtx) (before acts : List Act)
    (t : ThreadId) (m : Machine) (hm : m = before.foldl step (boot entry kstackTop rootPa sstatus ctx))
    (huser : m.phase = .user) (hclone : ∀ a ∈ acts, a.clones = false)
    (hready : Run.Always step (fun m => m.rt.isReady t = true) m acts) :
    Run.count step switches m acts < gap 32 m.rt.current t ∧
      Run.count step ticks m acts ≤ Run.count step switches m acts + 1 := by
  have hsound : m.Sound := by
    rw [hm]
    exact List.foldlRecOn _ _ (boot_sound ..) fun m h a _ => step_sound m a h
  have hpending : m.rt.pendingTarget = none := by
    have hs := hsound
    rw [Machine.Sound, huser] at hs
    exact hs.pending
  obtain ⟨hr, hsteps⟩ := Run.always_iff.mp hready
  have hstart : m.Awaits t := ⟨hsound, hr, fun _ n hn => by rw [hpending] at hn; cases hn⟩
  have hforall : Run.Along step (fun _ a => a.clones = false) m acts := Run.along_of_forall hclone
  have hrun := hforall.and hsteps
  have hkept : ∀ m a, Machine.Awaits t m → Act.clones a = false ∧ (step m a).rt.isReady t = true →
      (step m a).Awaits t := fun m a h hg => h.step hg.1 hg.2
  have hcount : Run.count step switches m acts < (fun m : Machine => gap 32 m.rt.current t) m :=
    Run.count_lt_of_rank hkept (fun m h => gap_pos (isReady_iff.mp h.ready).2) (fun m a h hg => h.closer hg.1)
      hstart hrun
  have howed : Run.count step ticks m acts + ((fun m : Machine => m.rt.pendingTarget.isSome) m).toNat ≤
      Run.count step switches m acts + 1 :=
    Run.count_le_of_owed hkept (fun m a h hg => h.owes hg.1 hg.2) hstart hrun
  exact ⟨hcount, (Nat.le_add_right ..).trans howed⟩

/-- The boot process forks, and the child forks again. -/
def forkTwice : List Act := callActs 0x20000 220 [17] ++ callActs 0x30000 220 [17]

/-- Two timer interrupts, up to the switch in the second. -/
def tickTwice : List Act :=
  [.timer (callEntry 0 []) 0 0, .deliver, .leave, .timer (callEntry 0 []) 0 0, .deliver]

/-- The first child is passed over once, for its parent. -/
theorem tickTwice_next :
    (Run.count step switches (forkTwice.foldl step quietBoot) tickTwice <
        gap 32 (forkTwice.foldl step quietBoot).rt.current 1 ∧
      Run.count step ticks (forkTwice.foldl step quietBoot) tickTwice ≤
        Run.count step switches (forkTwice.foldl step quietBoot) tickTwice + 1) ∧
      Run.count step switches (forkTwice.foldl step quietBoot) tickTwice = 1 :=
  ⟨ready_thread_next 0x10000 0x2000 0x80200000 0 ⟨0, 0, 0, 0⟩ forkTwice tickTwice 1 _ rfl (by decide +kernel)
    (by decide) (Run.always_iff.mpr (by decide +kernel)), by decide +kernel⟩

end Pyremu.Sittim
