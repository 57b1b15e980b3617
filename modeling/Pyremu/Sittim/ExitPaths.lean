import Pyremu.Sittim.Steps
import Pyremu.Lib.Run

/-!
# When the enclave ends

An exit goes on with a runnable thread, and ends the enclave when there is none.
A thread that sleeps with a wait timer is not looked for: `block_current` would
wait for its deadline, an exit does not.
-/

namespace Pyremu.Sittim

open Sweep

/-- A call of `exit_current_thread` or of `exit_process`. -/
inductive ExitCall where
  | thread (code : Word)
  | process (p : ProcSlot) (code : Word)

namespace ExitCall

variable (c : ExitCall) (s : Runtime)

def run : Ending :=
  match c with
  | thread code => s.exitCurrentThread code
  | process p code => s.exitProcess p code

/-- The process that ends with the call, if it is not the running thread alone. -/
def endsProc : Option ProcSlot :=
  match c with
  | thread _ =>
    if s.liveThreadCount (s.threads s.current).proc ≤ 1 then some (s.threads s.current).proc else none
  | process p _ => some p

/-- The boot process ends, and the enclave with it. -/
def EndsBoot : Prop := c.endsProc s = some 0

/-- The threads that are there after the call. -/
def Stays (t : ThreadId) : Prop :=
  (s.threads t).state ≠ .free ∧
    match c.endsProc s with
    | some p => (s.threads t).proc ≠ p
    | none => t ≠ s.current

/-- A thread that waits on the address the call wakes: the parent in `wait4`, or a joining thread. -/
def WaitsFor (t : ThreadId) : Prop :=
  match c.endsProc s with
  | some p => ∃ q, (s.procs p).parent = some q ∧ s.isBlockedOn t (waitAddr q) = true
  | none =>
    (s.threads s.current).clearChildThreadId ≠ 0 ∧
      s.isBlockedOn t (s.threads s.current).clearChildThreadId = true

end ExitCall

/-- A thread that sleeps until a deadline. -/
def Runtime.SleepsTimed (s : Runtime) (t : ThreadId) : Prop :=
  s.isBlocked t = true ∧ s.hasWaitTimer t = true

instance (s : Runtime) (t : ThreadId) : Decidable (s.SleepsTimed t) :=
  inferInstanceAs (Decidable (_ ∧ _))

/-- The enclave ends only when no thread can run or sleeps until a deadline; otherwise the scheduler's
own choice is registered. -/
def Ending.OnlyWhenIdle : Ending → Prop
  | .ended x _ => ∀ t, ¬ (x.isRunnable t = true ∨ x.SleepsTimed t)
  | .returned x _ => ∃ t, x.pendingTarget = some t ∧ x.isRunnable t = true ∧
      ∀ now, (x.pickSwitchTarget now x.current).2 = some t

/-- Some thread that stays can run or is woken by the exit, or none of those that stay sleeps until a
deadline. -/
def LeavesWork (s : Runtime) (c : ExitCall) : Prop :=
  (∃ t, c.Stays s t ∧ (s.isRunnable t = true ∨ c.WaitsFor s t)) ∨
    ∀ t, c.Stays s t → ¬ s.SleepsTimed t

section GoOn

variable {s x : Runtime} {code : Word}

theorem pickSwitchTarget_of_runnable {t : ThreadId} (h : x.nextRunnable x.current = some t) (now : Word) :
    (x.pickSwitchTarget now x.current).2 = some t := by
  rw [Runtime.pickSwitchTarget, h]

/-- The tail of both exits, in terms of the state it works on. -/
theorem goOn_onlyWhenIdle_iff (hcur : x.isRunnable x.current = false) :
    (x.goOn code).OnlyWhenIdle ↔
      (∃ t, x.isRunnable t = true) ∨ ∀ t, ¬ x.SleepsTimed t := by
  rw [Runtime.goOn]
  cases hn : x.nextRunnable x.current with
  | some t =>
    have ht := (findBehind_some hn).2
    constructor
    · intro _
      exact .inl ⟨t, ht⟩
    · intro _
      exact ⟨t, rfl, ht, pickSwitchTarget_of_runnable (x := { x with pendingTarget := some t }) hn⟩
  | none =>
    have hnone : ∀ t, x.isRunnable t = false := by
      intro t
      by_cases ht : t = x.current
      · rwa [ht]
      · exact findBehind_none.mp hn t ht
    simp only [Ending.OnlyWhenIdle, hnone, Bool.false_eq_true, false_or, exists_const]

/-- An exit seen from outside: some threads are released, one waiter is woken if there is one, and
the rest stays as it is. -/
theorem exit_onlyWhenIdle_iff (stays waits : ThreadId → Prop) (hcur : ¬ stays x.current)
    (hgone : ∀ t, ¬ stays t → (x.threads t).state = .free)
    (htimer : ∀ t, stays t → x.timers t = s.timers t)
    (honly : ∀ t, stays t → (x.threads t).state ≠ (s.threads t).state → waits t)
    (hfirst : ∀ t, stays t → waits t → ∃ u, x.isRunnable u = true) :
    (x.goOn code).OnlyWhenIdle ↔
      (∃ t, stays t ∧ (s.isRunnable t = true ∨ waits t)) ∨ ∀ t, stays t → ¬ s.SleepsTimed t := by
  have hdead : ∀ t, ¬ stays t → x.isRunnable t = false := by
    intro t ht
    simp only [Runtime.isRunnable, hgone t ht, reduceCtorEq, decide_false]
  rw [goOn_onlyWhenIdle_iff (hdead _ hcur)]
  by_cases hrun : ∃ t, x.isRunnable t = true
  · -- somebody can run: he could before, or was woken
    apply iff_of_true (.inl hrun)
    obtain ⟨t, ht⟩ := hrun
    have hs : stays t := by
      by_contra hs
      simp [hdead t hs] at ht
    refine .inl ⟨t, hs, ?_⟩
    by_cases he : (x.threads t).state = (s.threads t).state
    · left
      rwa [Runtime.isRunnable, ← he]
    · exact .inr (honly t hs he)
  · -- nobody can: so nobody was woken, and those that stay are as they were
    have hsame : ∀ t, stays t → (x.threads t).state = (s.threads t).state := by
      intro t hs
      by_contra he
      exact hrun (hfirst t hs (honly t hs he))
    have hleft : ¬ ∃ t, stays t ∧ (s.isRunnable t = true ∨ waits t) := by
      rintro ⟨t, hs, hr | hw⟩
      · apply hrun
        refine ⟨t, ?_⟩
        rwa [Runtime.isRunnable, hsame t hs]
      · exact hrun (hfirst t hs hw)
    rw [or_iff_right hrun, or_iff_right hleft]
    have hsleep : ∀ t, stays t → (x.SleepsTimed t ↔ s.SleepsTimed t) := by
      intro t hs
      simp only [Runtime.SleepsTimed, Runtime.isBlocked, Runtime.hasWaitTimer, hsame t hs, htimer t hs]
    constructor
    · intro h t hs
      rw [← hsleep t hs]
      exact h t
    · intro h t ht
      have hs : stays t := by
        by_contra hs
        simp [Runtime.SleepsTimed, Runtime.isBlocked, hgone t hs] at ht
      exact h t hs ((hsleep t hs).mp ht)

end GoOn

namespace Runtime

variable {s : Runtime} {addr : Word}

/-- A wake with a budget of one, by what it does to each thread. -/
theorem wakeOne_state {t : ThreadId}
    (h : ((s.wakeBlocked addr 1).1.threads t).state ≠ (s.threads t).state) :
    s.isBlockedOn t addr = true := by
  rw [wakeBlocked_threads] at h
  split_ifs at h with hm
  · exact mem_waiters.mp (List.mem_of_mem_take hm)
  · exact absurd rfl h

theorem wakeOne_first {t : ThreadId} (h : s.isBlockedOn t addr = true) :
    ∃ u, s.isBlockedOn u addr = true ∧ (s.wakeBlocked addr 1).1.isRunnable u = true := by
  have hpos : 0 < (1 : Word).toNat := by decide
  obtain ⟨u, hu⟩ := exists_mem_take hpos (mem_waiters.mpr h)
  refine ⟨u, mem_waiters.mp (List.mem_of_mem_take hu), ?_⟩
  rw [isRunnable, wakeBlocked_threads, if_pos hu]
  rfl

theorem wakeBlocked_woken (nr : Word) (t : ThreadId) :
    Woken (s.threads t) ((s.wakeBlocked addr nr).1.threads t) := by
  rw [wakeBlocked_threads]
  split_ifs with hm
  · exact woken_makeRunnable (of_decide_eq_true (mem_waiters.mp (List.mem_of_mem_take hm))).1
  · exact Woken.refl _

/-- `exit_process` from a trap of its own process. -/
theorem exitProcess_onlyWhenIdle_iff {p : ProcSlot} (hp : p ≠ 0) (code : Word)
    (hcur : (s.threads s.current).state = .free ∨ (s.threads s.current).proc = p) :
    (s.exitProcess p code).OnlyWhenIdle ↔ LeavesWork s (.process p code) := by
  have hkeep : ∀ t, (s.threads t).proc ≠ p → (s.markExited p code).threads t = s.threads t ∧
      (s.markExited p code).timers t = s.timers t := by
    intro t ht
    have hl : ¬ s.isLiveThreadOf t p = true := fun hl => ht (of_decide_eq_true hl).2
    rw [markExited_threads, markExited_timers, if_neg hl, if_neg hl]
    exact ⟨rfl, rfl⟩
  have hblocked : ∀ t addr, (s.markExited p code).isBlockedOn t addr = true ↔
      s.isBlockedOn t addr = true ∧ (s.threads t).proc ≠ p := by
    intro t addr
    by_cases ht : (s.threads t).proc = p
    · simp only [isBlockedOn, markExited_threads]
      split_ifs with hl
      · simp [ThreadCtl.release, ThreadCtl.freed, ht]
      · have hf : (s.threads t).state = .free := by
          by_contra hf
          exact hl (decide_eq_true ⟨hf, ht⟩)
        simp [hf]
    · simp only [isBlockedOn, (hkeep t ht).1, ht, ne_eq, not_false_eq_true, and_true]
  rw [exitProcess_eq hp]
  apply exit_onlyWhenIdle_iff (s := s) ((ExitCall.process p code).Stays s)
    ((ExitCall.process p code).WaitsFor s)
  case hcur =>
    rintro ⟨hf, hp'⟩
    rw [exited_current] at hf hp'
    exact hcur.elim hf hp'
  case hgone =>
    intro t ht
    apply exited_state
    by_contra hne
    rw [not_or] at hne
    exact ht hne
  case htimer =>
    rintro t ⟨_, ht⟩
    rw [← (hkeep t ht).2, exited]
    split <;> rfl
  case honly =>
    rintro t ⟨_, ht⟩ hne
    rw [← (hkeep t ht).1, exited] at hne
    split at hne
    · rename_i q hq
      exact ⟨q, hq, ((hblocked t _).mp (wakeOne_state hne)).1⟩
    · exact absurd rfl hne
  case hfirst =>
    rintro t ⟨_, ht⟩ ⟨q, hq, hb⟩
    obtain ⟨u, _, hu⟩ := wakeOne_first ((hblocked t _).mpr ⟨hb, ht⟩)
    refine ⟨u, ?_⟩
    rw [exited, hq]
    exact hu

/-- `exit_current_thread` of a thread that leaves others of its process behind. -/
theorem leftThread_onlyWhenIdle_iff (code : Word)
    (hmore : ¬ s.liveThreadCount (s.threads s.current).proc ≤ 1)
    (hcur : (s.threads s.current).state ≠ .blocked) :
    (s.exitCurrentThread code).OnlyWhenIdle ↔ LeavesWork s (.thread code) := by
  have hends : (ExitCall.thread code).endsProc s = none := if_neg hmore
  have hthreads : ∀ t, t ≠ s.current → s.leftThread.threads t =
      if (s.threads s.current).clearChildThreadId = 0 then s.threads t
      else (s.wakeBlocked (s.threads s.current).clearChildThreadId 1).1.threads t := by
    intro t ht
    simp only [leftThread, releaseSlot, resetTimer, setThread, Function.update_of_ne ht]
    split_ifs <;> rfl
  have htimers : ∀ t, t ≠ s.current → s.leftThread.timers t = s.timers t := by
    intro t ht
    simp only [leftThread, releaseSlot, resetTimer, setThread, Function.update_of_ne ht]
    split_ifs <;> rfl
  rw [exitCurrentThread_eq hmore]
  apply exit_onlyWhenIdle_iff (s := s) ((ExitCall.thread code).Stays s) ((ExitCall.thread code).WaitsFor s)
  all_goals simp only [ExitCall.Stays, ExitCall.WaitsFor, hends]
  case hcur =>
    rintro ⟨_, hne⟩
    exact hne leftThread_current
  case hgone =>
    intro t ht
    by_cases hc : t = s.current
    · rw [hc]
      exact leftThread_state
    · have hf : (s.threads t).state = .free := by
        by_contra hf
        exact ht ⟨hf, hc⟩
      rw [hthreads t hc]
      split_ifs
      · exact hf
      · exact (wakeBlocked_woken 1 t).live.mpr hf
  case htimer => exact fun t ht => htimers t ht.2
  case honly =>
    intro t ht hne
    rw [hthreads t ht.2] at hne
    split_ifs at hne with hz
    · exact absurd rfl hne
    · exact ⟨hz, wakeOne_state hne⟩
  case hfirst =>
    rintro t ht ⟨hz, hb⟩
    obtain ⟨u, hub, hu⟩ := wakeOne_first hb
    have hne : u ≠ s.current := by
      rintro rfl
      exact hcur (of_decide_eq_true hub).1
    refine ⟨u, ?_⟩
    rw [isRunnable, hthreads u hne, if_neg hz]
    exact hu

/-- Every exit of a running thread or of its process, the boot process left out. -/
theorem exitCall_onlyWhenIdle_iff {c : ExitCall} (hboot : ¬ c.EndsBoot s)
    (hproc : ∀ p code, c = .process p code →
      (s.threads s.current).state = .free ∨ (s.threads s.current).proc = p)
    (hthread : ∀ code, c = .thread code → (s.threads s.current).state ≠ .blocked) :
    (c.run s).OnlyWhenIdle ↔ LeavesWork s c := by
  cases c with
  | process p code =>
    have hp : p ≠ 0 := by
      rintro rfl
      exact hboot rfl
    exact exitProcess_onlyWhenIdle_iff hp code (hproc p code rfl)
  | thread code =>
    by_cases hl : s.liveThreadCount (s.threads s.current).proc ≤ 1
    · -- the last thread takes its process with it
      have hends : (ExitCall.thread code).endsProc s = some (s.threads s.current).proc := if_pos hl
      have hp : (s.threads s.current).proc ≠ 0 := by
        intro hz
        exact hboot (by rw [ExitCall.EndsBoot, hends, hz])
      have hsame : LeavesWork s (.thread code) ↔ LeavesWork s (.process (s.threads s.current).proc code) := by
        simp only [LeavesWork, ExitCall.Stays, ExitCall.WaitsFor, hends]
        exact Iff.rfl
      rw [hsame, ExitCall.run, exitCurrentThread_last hl]
      exact exitProcess_onlyWhenIdle_iff hp code (.inr rfl)
    · exact leftThread_onlyWhenIdle_iff code hl (hthread code rfl)

end Runtime

/-! ## Exits during a run -/

/-- The exit that a module fault makes, when the process has no handler for it. -/
def sigbusExit (s : Runtime) : Option (Runtime × ExitCall) :=
  let exit := fun (x : Runtime) =>
    if x.currentSig.disposition SIGBUS = .terminate then
      some (x, ExitCall.process x.currentProc (SIGNAL_EXIT_OFFSET + BitVec.ofNat 64 SIGBUS))
    else none
  match (s.threads s.current).trapResume with
  | .none => none
  | .ecall _ => exit (s.abandonCall true)
  | .interrupted _ => exit (s.abandonCall false)

/-- The exit that a step makes, and the state in which it is called. -/
def exitCall (m : Machine) : Act → Option (Runtime × ExitCall)
  | .ecall e _ =>
    let s := m.rt.enter e true
    if m.phase ≠ .user then none
    else match (s.gprs.regs 17).toNat with
      | 93 => some (s, .thread (s.gprs.regs 10))
      | 94 => some (s, .process s.currentProc (s.gprs.regs 10))
      | _ => none
  | .fault e scause isRetried =>
    let s := m.rt.enter e false
    if m.phase ≠ .user ∨ (Runtime.isUnmatchedAccessFault scause && isRetried) = true then none
    else some (s, .process s.currentProc (128 + userFaultSignal scause))
  | .callFault e armed =>
    if m.phase ≠ .user then none else sigbusExit ((m.rt.enter e true).armed armed)
  | .interruptFault e => if m.phase ≠ .user then none else sigbusExit (m.rt.enter e false)
  | .netFault =>
    match m.phase with
    | .handled _ _ => sigbusExit m.rt
    | _ => none
  | .deliver =>
    match m.phase, m.rt.currentSig.takePending with
    | .deliver _, some (st, sig) =>
      if st.disposition sig = .terminate then
        some (m.rt.setCurrentSig st, .process m.rt.currentProc (SIGNAL_EXIT_OFFSET + BitVec.ofNat 64 sig))
      else none
    | _, _ => none
  | _ => none

/-- An exit at the end of a delivery is the ending of the delivery. -/
theorem Ending.bind_machine (e : Ending) (pc : Word) :
    (e.bind fun s _ => .returned s pc).machine .leave = e.machine fun _ => .leave pc := by
  cases e <;> rfl

theorem raiseSigbus_terminate {s : Runtime} (h : s.currentSig.disposition SIGBUS = .terminate) (pc : Word) :
    (s.raiseSigbus pc).machine .leave =
      (s.exitProcess s.currentProc (SIGNAL_EXIT_OFFSET + BitVec.ofNat 64 SIGBUS)).machine
        fun _ => .leave pc := by
  rw [Runtime.raiseSigbus, h]
  exact Ending.bind_machine _ pc

theorem moduleFault_sigbusExit {s x : Runtime} {c : ExitCall} (h : sigbusExit s = some (x, c)) :
    ∃ next, s.moduleFault = (c.run x).machine next := by
  rw [sigbusExit] at h
  rw [Runtime.moduleFault, Runtime.deliverModuleFault]
  cases hr : (s.threads s.current).trapResume with
  | none =>
    rw [hr] at h
    cases h
  | ecall next =>
    rw [hr] at h
    dsimp only at h
    split_ifs at h with hd
    obtain ⟨rfl, rfl⟩ := Prod.mk.inj (Option.some.inj h)
    exact ⟨_, raiseSigbus_terminate hd next⟩
  | interrupted pc =>
    rw [hr] at h
    dsimp only at h
    split_ifs at h with hd
    obtain ⟨rfl, rfl⟩ := Prod.mk.inj (Option.some.inj h)
    exact ⟨_, raiseSigbus_terminate hd pc⟩

/-- The exit decides what the step does. -/
theorem step_exitCall {m : Machine} {a : Act} {s : Runtime} {c : ExitCall}
    (h : exitCall m a = some (s, c)) : ∃ next, step m a = (c.run s).machine next := by
  cases a with
  | ecall e env =>
    rw [exitCall] at h
    split_ifs at h with hp
    rw [not_not] at hp
    rw [step, if_pos hp, Runtime.syscallHandler]
    split at h
    · rename_i hn
      obtain ⟨rfl, rfl⟩ := Prod.mk.inj (Option.some.inj h)
      rw [hn]
      exact ⟨_, rfl⟩
    · rename_i hn
      obtain ⟨rfl, rfl⟩ := Prod.mk.inj (Option.some.inj h)
      rw [hn]
      exact ⟨_, rfl⟩
    · cases h
  | fault e scause isRetried =>
    rw [exitCall] at h
    split_ifs at h with hp
    rw [not_or, not_not] at hp
    obtain ⟨rfl, rfl⟩ := Prod.mk.inj (Option.some.inj h)
    rw [step, if_pos hp.1]
    dsimp only
    rw [if_neg hp.2]
    exact ⟨_, rfl⟩
  | callFault e armed =>
    rw [exitCall] at h
    split_ifs at h with hp
    rw [not_not] at hp
    rw [step, if_pos hp]
    exact moduleFault_sigbusExit h
  | interruptFault e =>
    rw [exitCall] at h
    split_ifs at h with hp
    rw [not_not] at hp
    rw [step, if_pos hp]
    exact moduleFault_sigbusExit h
  | netFault =>
    rw [exitCall] at h
    split at h
    · rename_i hp
      rw [step, hp]
      exact moduleFault_sigbusExit h
    · cases h
  | deliver =>
    rw [exitCall] at h
    split at h
    · rename_i resume st sig hp ht
      split_ifs at h with hd
      obtain ⟨rfl, rfl⟩ := Prod.mk.inj (Option.some.inj h)
      rw [step, hp]
      dsimp only
      rw [Runtime.deliverPending, ht]
      dsimp only
      rw [hd]
      exact ⟨_, Ending.bind_machine _ resume⟩
    · cases h
  | timer | software | otherInterrupt | netEvent | leave => cases h

theorem sigbusExit_proc {s x : Runtime} {c : ExitCall} (hs : s.InKernel) (h : sigbusExit s = some (x, c)) :
    ∃ code, c = .process x.currentProc code ∧ x.InKernel := by
  have hk : ∀ b, (s.abandonCall b).InKernel := fun b =>
    (hs.setSstatus _).calm (Runtime.abandonCall_calm b)
  rw [sigbusExit] at h
  split at h
  · cases h
  · dsimp only at h
    split_ifs at h
    obtain ⟨rfl, rfl⟩ := Prod.mk.inj (Option.some.inj h)
    exact ⟨_, rfl, hk true⟩
  · dsimp only at h
    split_ifs at h
    obtain ⟨rfl, rfl⟩ := Prod.mk.inj (Option.some.inj h)
    exact ⟨_, rfl, hk false⟩

/-- A thread exits while it runs; a process exits in a trap of its own. -/
theorem exitCall_cases {m : Machine} (hm : m.Sound) {a : Act} {s : Runtime} {c : ExitCall}
    (h : exitCall m a = some (s, c)) :
    (∃ code, c = .thread code) ∧ s.AtUser ∨ ∃ code, c = .process s.currentProc code ∧ s.InKernel := by
  cases a with
  | ecall e env =>
    rw [exitCall] at h
    split_ifs at h with hp
    rw [not_not] at hp
    rw [Machine.Sound, hp] at hm
    have he := Runtime.AtUser.enter hm e true
    split at h
    · obtain ⟨rfl, rfl⟩ := Prod.mk.inj (Option.some.inj h)
      exact .inl ⟨⟨_, rfl⟩, he⟩
    · obtain ⟨rfl, rfl⟩ := Prod.mk.inj (Option.some.inj h)
      exact .inr ⟨_, rfl, he.inKernel⟩
    · cases h
  | fault e scause isRetried =>
    rw [exitCall] at h
    split_ifs at h with hp
    rw [not_or, not_not] at hp
    rw [Machine.Sound, hp.1] at hm
    obtain ⟨rfl, rfl⟩ := Prod.mk.inj (Option.some.inj h)
    exact .inr ⟨_, rfl, (Runtime.AtUser.enter hm e false).inKernel⟩
  | callFault e armed =>
    rw [exitCall] at h
    split_ifs at h with hp
    rw [not_not] at hp
    rw [Machine.Sound, hp] at hm
    have he := (Runtime.AtUser.enter hm e true).inKernel
    exact .inr (sigbusExit_proc (he.calm (Runtime.armed_calm armed)) h)
  | interruptFault e =>
    rw [exitCall] at h
    split_ifs at h with hp
    rw [not_not] at hp
    rw [Machine.Sound, hp] at hm
    exact .inr (sigbusExit_proc (Runtime.AtUser.enter hm e false).inKernel h)
  | netFault =>
    rw [exitCall] at h
    split at h
    · rename_i hp
      rw [Machine.Sound, hp] at hm
      exact .inr (sigbusExit_proc hm h)
    · cases h
  | deliver =>
    rw [exitCall] at h
    split at h
    · rename_i resume st sig hp ht
      rw [Machine.Sound, hp] at hm
      split_ifs at h
      obtain ⟨rfl, rfl⟩ := Prod.mk.inj (Option.some.inj h)
      exact .inr ⟨_, rfl, Runtime.InKernel.calm hm (Calm.setCurrentSig st)⟩
    · cases h
  | timer | software | otherInterrupt | netEvent | leave => cases h

/-- In every run, an exit that leaves the boot process alone ends the enclave only when nothing is
left to run, exactly when it leaves a thread that can run or no thread that sleeps until a deadline. -/
theorem exits_onlyWhenIdle_iff (entry kstackTop rootPa sstatus : Word) (ctx : TaMemCtx) (acts : List Act) :
    Run.Along step (fun m a => ∀ s c, exitCall m a = some (s, c) → ¬ c.EndsBoot s →
      ((c.run s).OnlyWhenIdle ↔ LeavesWork s c)) (boot entry kstackTop rootPa sstatus ctx) acts := by
  apply Run.along_of_invariant (I := Machine.Sound) step_sound _ (boot_sound _ _ _ _ _)
  intro m a hm s c h hboot
  apply Runtime.exitCall_onlyWhenIdle_iff hboot
  · rintro p code rfl
    rcases exitCall_cases hm h with ⟨⟨code', hc⟩, _⟩ | ⟨code', hc, hk⟩
    · cases hc
    · obtain ⟨rfl, _⟩ := ExitCall.process.inj hc
      exact hk.proc
  · rintro code rfl
    rcases exitCall_cases hm h with ⟨_, hu⟩ | ⟨code', hc, _⟩
    · intro hb
      have hr := hu.canRun
      rw [hb] at hr
      cases hr
    · cases hc

/-- `nanosleep` for one second. -/
def sleepEntry : Entry :=
  { callEntry 101 [0x1000] with mem := ByteMem.writeLe (fun _ => 0) 0x1000 8 1 }

/-- The boot process forks, the child yields, and the parent goes to sleep. -/
def sleepingParent : Machine :=
  (callActs 0x20000 220 [17] ++ callActs 0 124 [] ++ trapActs sleepEntry (quietEnv 0)).foldl step quietBoot

/-- The exit of the child ends the enclave while its parent sleeps, although the scheduler would
choose the parent at its deadline. -/
theorem sleepingParent_ended :
    let a := Act.ecall (callEntry 94 [0]) (quietEnv 0)
    let m := step sleepingParent a
    (exitCall sleepingParent a).map (fun x => x.2.endsProc x.1) = some (some 1) ∧
      m.phase = .ended 0 ∧ m.rt.SleepsTimed 0 ∧ m.rt.nextDeadline = some 100000 ∧
      (m.rt.pickSwitchTarget 100000 m.rt.current).2 = some 0 := by
  decide

end Pyremu.Sittim
