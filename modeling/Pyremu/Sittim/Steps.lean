import Pyremu.Sittim.Calm

/-!
# What a step of the kernel can do

Every handler is calm, or does one of five other things: it replaces `sstatus`,
starts a thread, forks, reaps a child, or ends a thread or a process. Invariants
of the tables are proved from these cases.
-/

namespace Pyremu.Sittim

open Sweep

namespace Runtime

/-! ## Exit, in two parts -/

/-- The tables when a process has ended: its entry marked, its threads gone. -/
def markExited (s : Runtime) (p : ProcSlot) (code : Word) : Runtime :=
  let s := s.setProc p fun c =>
    { c with
      exited := true
      exitCode := code
      sig := c.sig.clearPending
      itimerNext := 0
      itimerInterval := 0 }
  { s with log := .exited (s.procs p).pid code :: s.log }.freeProcessThreads p

/-- And when its parent has been woken. -/
def exited (s : Runtime) (p : ProcSlot) (code : Word) : Runtime :=
  match (s.procs p).parent with
  | some q => ((s.markExited p code).wakeBlocked (waitAddr q) 1).1
  | none => s.markExited p code

/-- The tables when the running thread has ended and its process has not. -/
def leftThread (s : Runtime) : Runtime :=
  let ctid := (s.threads s.current).clearChildThreadId
  let x := if ctid = 0 then s else ((s.storeUserU32 ctid 0).wakeBlocked ctid 1).1
  x.releaseSlot s.current

variable {s s' : Runtime}

theorem exited_calm (p : ProcSlot) (code : Word) : Calm (s.markExited p code) (s.exited p code) := by
  rw [exited]
  split
  · exact wakeBlocked_calm _ _
  · exact Calm.refl _

theorem exitProcess_eq {p : ProcSlot} (hp : p ≠ 0) (code : Word) :
    s.exitProcess p code = (s.exited p code).goOn code := by
  rw [exitProcess, if_neg hp, exited]
  dsimp only
  cases (s.procs p).parent with
  | none => rfl
  | some q => rfl

theorem leftThread_current : s.leftThread.current = s.current := by
  rw [leftThread]
  split_ifs <;> rfl

theorem exitCurrentThread_last {code : Word}
    (h : s.liveThreadCount (s.threads s.current).proc ≤ 1) :
    s.exitCurrentThread code = s.exitProcess (s.threads s.current).proc code := by
  rw [exitCurrentThread]
  dsimp only
  rw [if_pos h]

theorem exitCurrentThread_eq {code : Word}
    (h : ¬ s.liveThreadCount (s.threads s.current).proc ≤ 1) :
    s.exitCurrentThread code = s.leftThread.goOn code := by
  rw [exitCurrentThread]
  dsimp only
  rw [if_neg h]
  rfl

theorem markExited_threads (p : ProcSlot) (code : Word) (t : ThreadId) :
    (s.markExited p code).threads t =
      if s.isLiveThreadOf t p then (s.threads t).release else s.threads t := rfl

theorem markExited_timers (p : ProcSlot) (code : Word) (t : ThreadId) :
    (s.markExited p code).timers t = if s.isLiveThreadOf t p then .freed else s.timers t := rfl

theorem markExited_kin (p : ProcSlot) (code : Word) (q : ProcSlot) :
    ((s.markExited p code).procs q).kin =
      if q = p then { (s.procs p).kin with exited := true, exitCode := code } else (s.procs q).kin := by
  simp only [markExited, freeProcessThreads, setProc]
  by_cases hq : q = p
  · subst hq
    rw [if_pos rfl, Function.update_self]
    rfl
  · rw [if_neg hq, Function.update_of_ne hq]

theorem markExited_log (p : ProcSlot) (code : Word) :
    (s.markExited p code).log = .exited (s.procs p).pid code :: s.log := by
  simp only [markExited, freeProcessThreads, setProc, Function.update_self]

/-- Where a process exits from, the running thread is gone afterwards. -/
theorem goOn_returned {code ret : Word} (h : s.goOn code = .returned s' ret) :
    ∃ next, s.nextRunnable s.current = some next ∧ s' = { s with pendingTarget := some next } := by
  rw [goOn] at h
  split at h
  · rename_i next hn
    obtain ⟨rfl, _⟩ := Ending.returned.inj h
    exact ⟨next, hn, rfl⟩
  · cases h

end Runtime

/-! ## The cases -/

/-- The entry of a forked process. -/
def forkKin (s : Runtime) : Kin := ⟨true, s.nextPid, (s.procs s.currentProc).pid, false, 0, some s.currentProc⟩

inductive Did (s : Runtime) : Runtime → Prop where
  | calm {s' : Runtime} (h : Calm s s') : Did s s'
  | status {s' : Runtime} (call : (s.gprs.regs 17).toNat = 139)
      (h : Calm (s.writeSstatus (readU64 s.mem (s.gprs.spBeforeTrap + 16))) s') : Did s s'
  | thread {s' : Runtime} (t : ThreadId) (c : ThreadCtl) (free : (s.threads t).state = .free)
      (state : c.state = .runnable) (proc : c.proc = (s.threads s.current).proc)
      (saved : c.sstatus = s.sstatus)
      (h : Calm { s with threads := Function.update s.threads t c, pendingTarget := some t } s') : Did s s'
  | fork {s' : Runtime} (t : ThreadId) (c : ThreadCtl) (p : ProcSlot) (k : ProcCtl)
      (free : (s.threads t).state = .free) (unused : (s.procs p).used = false)
      (state : c.state = .runnable) (proc : c.proc = p) (saved : c.sstatus = s.sstatus)
      (kin : k.kin = forkKin s)
      (h : Calm { s with
        threads := Function.update s.threads t c
        procs := Function.update s.procs p k
        nextPid := s.nextPid + 1
        pendingTarget := some t
        log := .created (s.procs s.currentProc).pid s.nextPid :: s.log } s') : Did s s'
  | reap {x s' : Runtime} (p : ProcSlot) (hx : Calm s x) (child : x.isChild (x.procs p) = true)
      (dead : (x.procs p).exited = true)
      (h : Calm { x with
        procs := Function.update x.procs p { x.procs p with used := false }
        log := .reaped (x.procs p).pid :: x.log } s') : Did s s'
  | exit {s' : Runtime} (p : ProcSlot) (code : Word) (hp : p ≠ 0)
      (own : p = s.currentProc ∨ p = (s.threads s.current).proc) (next : ThreadId)
      (hn : (s.exited p code).nextRunnable s.current = some next)
      (h : s' = { s.exited p code with pendingTarget := some next }) : Did s s'
  | leftThread {s' : Runtime} (next : ThreadId) (hn : s.leftThread.nextRunnable s.current = some next)
      (more : ¬ s.liveThreadCount (s.threads s.current).proc ≤ 1)
      (h : s' = { s.leftThread with pendingTarget := some next }) : Did s s'

namespace Runtime

variable {s s' : Runtime} {env : Env} {ret : Word}

theorem exited_current (p : ProcSlot) (code : Word) : (s.exited p code).current = s.current :=
  (exited_calm p code).current

theorem exitProcess_did {p : ProcSlot} {code : Word} (h : s.exitProcess p code = .returned s' ret)
    (own : p = s.currentProc ∨ p = (s.threads s.current).proc) : Did s s' := by
  by_cases hp : p = 0
  · rw [exitProcess, if_pos hp] at h
    cases h
  · rw [exitProcess_eq hp] at h
    obtain ⟨next, hn, he⟩ := goOn_returned h
    rw [exited_current] at hn
    exact .exit p code hp own next hn he

theorem exitCurrentThread_did {code : Word} (h : s.exitCurrentThread code = .returned s' ret) :
    Did s s' := by
  by_cases hl : s.liveThreadCount (s.threads s.current).proc ≤ 1
  · rw [exitCurrentThread_last hl] at h
    exact exitProcess_did h (.inr rfl)
  · rw [exitCurrentThread_eq hl] at h
    obtain ⟨next, hn, he⟩ := goOn_returned h
    rw [leftThread_current] at hn
    exact .leftThread next hn hl he

theorem nextFreeSlot_free {t : ThreadId} (h : s.nextFreeSlot = some t) :
    (s.threads t).state = .free := by
  rw [nextFreeSlot] at h
  exact of_decide_eq_true (List.find?_some (p := fun t => decide ((s.threads t).state = .free)) h)

theorem takeSlot_free {t : ThreadId} {top : Word} (h : s.takeSlot env = .ok (t, top)) :
    (s.threads t).state = .free := by
  rw [takeSlot] at h
  split at h
  · cases h
  · rename_i u hu
    dsimp only at h
    split_ifs at h
    all_goals
      obtain ⟨rfl, _⟩ := Prod.mk.inj (Except.ok.inj h)
      exact nextFreeSlot_free hu

theorem nextFreeProcSlot_unused {p : ProcSlot} (h : s.nextFreeProcSlot = some p) :
    (s.procs p).used = false := by
  rw [nextFreeProcSlot] at h
  simpa using List.find?_some (p := fun p => !(s.procs p).used) h

theorem cloneProcess_did (flags : Word) : Did s (s.cloneProcess env flags).1 := by
  rw [cloneProcess]
  split
  · exact .calm (Calm.refl s)
  · split
    · exact .calm (Calm.refl s)
    · rename_i p hp
      split
      · exact .calm (Calm.refl s)
      · split
        · exact .calm (Calm.refl s)
        · rename_i x t hx
          rw [spawnProcessThread] at hx
          split at hx
          · cases hx
          · rename_i u top hu
            dsimp only at hx
            obtain ⟨rfl, rfl⟩ := Prod.mk.inj (Option.some.inj hx)
            apply Did.fork u _ p _ (takeSlot_free hu) (nextFreeProcSlot_unused hp)
            case h => exact Calm.of_tables rfl (fun _ => rfl) rfl rfl rfl rfl rfl rfl
            all_goals rfl

theorem startThread_did {t : ThreadId} {top metaInfo ctid : Word} {g : TrapGprs}
    (free : (s.threads t).state = .free)
    (h : Calm (s.startThread t top (s.threads s.current).proc g metaInfo ctid) s') :
    Did s { s' with pendingTarget := some t } := by
  apply Did.thread t
    ⟨.runnable, (s.threads s.current).proc, top, s.sepc + 4, s.sstatus, .none, 0, metaInfo, ctid⟩
    free rfl rfl rfl
  apply Calm.trans _ (h.withPending t)
  exact Calm.of_tables rfl (fun _ => rfl) rfl rfl rfl rfl rfl rfl

theorem cloneThread_did (flags stack ptid tls ctid : Word) :
    Did s (s.cloneThread env flags stack ptid tls ctid).1 := by
  have hstore : ∀ (x : Runtime) (c : Prop) [Decidable c] (addr v : Word),
      Calm x (if c then x.storeUserU32 addr v else x) := by
    intro x c _ addr v
    split_ifs
    · exact storeUserU32_calm addr v
    · exact Calm.refl x
  rw [cloneThread]
  split
  · exact cloneProcess_did flags
  · split
    · exact .calm (Calm.refl s)
    · split
      · exact .calm (Calm.refl s)
      · rename_i t top ht
        exact startThread_did (takeSlot_free ht) ((hstore _ _ _ _).trans (hstore _ _ _ _))

theorem wait4_did {pid status options : Word} {rounds : List Round}
    (h : s.wait4 pid status options rounds = some (s', ret))
    (hs : (s.threads s.current).state ≠ .free) : Did s s' := by
  rcases waitLoop_cases rounds h hs with ⟨x, r, hx, he⟩ | ⟨hc, _⟩
  · rw [wait4Scan] at he
    dsimp only at he
    split at he
    · rename_i p hp
      have hf := List.find?_some hp
      simp only [Bool.and_eq_true] at hf
      obtain ⟨rfl, _⟩ := Prod.mk.inj (Option.some.inj he)
      apply Did.reap p hx hf.1.1 hf.1.2
      split_ifs
      all_goals exact Calm.of_tables rfl (fun _ => rfl) rfl rfl rfl rfl rfl rfl
    · split_ifs at he
      all_goals
        obtain ⟨rfl, _⟩ := Prod.mk.inj (Option.some.inj he)
        exact .calm hx
  · exact .calm hc

theorem sigreturn_did (call : (s.gprs.regs 17).toNat = 139) : Did s s.sigreturn.1 :=
  .status call (((Calm.setGprs _).trans (Calm.setCurrentSig _)).trans
    (Calm.of_tables rfl (fun _ => rfl) rfl rfl rfl rfl rfl rfl))

theorem done_returned {r : Runtime × Word} (h : done r = .returned s' ret) : s' = r.1 :=
  (Ending.returned.inj h).1.symm

/-- A call that waits, mapped to its ending. -/
theorem map_done {o : Option (Runtime × Word)} (h : o.map done = some (.returned s' ret)) :
    o = some (s', ret) := by
  rw [Option.map_eq_some_iff] at h
  obtain ⟨r, hr, he⟩ := h
  obtain ⟨rfl, rfl⟩ := Ending.returned.inj he
  exact hr

/-- What a handler that returns has done. -/
theorem syscallHandler_did (h : s.syscallHandler env = some (.returned s' ret))
    (hs : (s.threads s.current).state ≠ .free) : Did s s' := by
  rw [syscallHandler] at h
  split at h
  · exact .calm (ppoll_calm (map_done h) hs)
  · exact exitCurrentThread_did (Option.some.inj h)
  · exact exitProcess_did (Option.some.inj h) (.inl rfl)
  · obtain ⟨rfl, _⟩ := Ending.returned.inj (Option.some.inj h)
    exact .calm (Calm.setThread fun _ => ⟨rfl, rfl, .inl rfl⟩)
  · exact .calm (futex_calm (map_done h) hs)
  · exact .calm (nanosleep_calm (map_done h) hs)
  · obtain rfl := done_returned (Option.some.inj h)
    exact .calm (setitimer_calm _ _ _ _)
  · obtain ⟨rfl, _⟩ := Ending.returned.inj (Option.some.inj h)
    exact .calm schedYieldCurrent_calm
  · obtain rfl := done_returned (Option.some.inj h)
    exact .calm (kill_calm _ _)
  · obtain rfl := done_returned (Option.some.inj h)
    exact .calm (kill_calm _ _)
  · obtain rfl := done_returned (Option.some.inj h)
    exact .calm (kill_calm _ _)
  · obtain rfl := done_returned (Option.some.inj h)
    exact .calm (sigaction_calm _ _ _)
  · obtain rfl := done_returned (Option.some.inj h)
    exact .calm (sigprocmask_calm _ _ _ _)
  · rename_i call
    obtain rfl := done_returned (Option.some.inj h)
    exact sigreturn_did call
  · obtain ⟨rfl, _⟩ := Ending.returned.inj (Option.some.inj h)
    exact .calm (Calm.refl s)
  · obtain ⟨rfl, _⟩ := Ending.returned.inj (Option.some.inj h)
    exact .calm (Calm.refl s)
  · obtain ⟨rfl, _⟩ := Ending.returned.inj (Option.some.inj h)
    exact .calm (Calm.refl s)
  · exact .calm (recv_calm (map_done h) hs)
  · exact .calm (recv_calm (map_done h) hs)
  · obtain rfl := done_returned (Option.some.inj h)
    exact cloneThread_did _ _ _ _ _
  · exact wait4_did (map_done h) hs
  · obtain ⟨rfl, _⟩ := Ending.returned.inj (Option.some.inj h)
    exact .calm (Calm.refl s)

/-- The current process ends and a thread of another one goes on. -/
def CurrentExits (s s' : Runtime) : Prop :=
  ∃ code next, s.currentProc ≠ 0 ∧ (s.exited s.currentProc code).nextRunnable s.current = some next ∧
    s' = { s.exited s.currentProc code with pendingTarget := some next }

theorem currentExits_of_returned {code : Word}
    (h : s.exitProcess s.currentProc code = .returned s' ret) : CurrentExits s s' := by
  by_cases hp : s.currentProc = 0
  · rw [exitProcess, if_pos hp] at h
    cases h
  · rw [exitProcess_eq hp] at h
    obtain ⟨next, hn, he⟩ := goOn_returned h
    rw [exited_current] at hn
    exact ⟨code, next, hp, hn, he⟩

theorem bind_returned {e : Ending} {f : Runtime → Word → Ending} (h : e.bind f = .returned s' ret) :
    ∃ x v, e = .returned x v ∧ f x v = .returned s' ret := by
  cases e with
  | returned x v => exact ⟨x, v, rfl, h⟩
  | ended x code => cases h

/-- Delivery is calm up to the exit of the current process. -/
theorem deliverPending_cases {sepc : Word} (h : s.deliverPending sepc = .returned s' ret) :
    Calm s s' ∨ ∃ x, Calm s x ∧ CurrentExits x s' := by
  rw [deliverPending] at h
  split at h
  · obtain ⟨rfl, _⟩ := Ending.returned.inj h
    exact .inl (Calm.refl s)
  · rename_i st sig _
    have hst : Calm s (s.setCurrentSig st) := Calm.setCurrentSig st
    dsimp only at h
    split at h
    · obtain ⟨rfl, _⟩ := Ending.returned.inj h
      exact .inl hst
    · obtain ⟨x, v, hx, he⟩ := bind_returned h
      obtain ⟨rfl, _⟩ := Ending.returned.inj he
      exact .inr ⟨_, hst, currentExits_of_returned hx⟩
    · obtain ⟨rfl, _⟩ := Ending.returned.inj h
      exact .inl (hst.trans (buildFrame_calm _ _ _))

theorem abandonCall_calm (isCall : Bool) :
    Calm { s with sstatus := s.faultSstatus } (s.abandonCall isCall) := by
  cases isCall <;> exact Calm.of_tables rfl (fun _ => rfl) rfl rfl rfl rfl rfl rfl

theorem raiseSigbus_cases {pc : Word} (h : s.raiseSigbus pc = .returned s' ret) :
    Calm s s' ∨ CurrentExits s s' := by
  rw [raiseSigbus] at h
  split at h
  · obtain ⟨rfl, _⟩ := Ending.returned.inj h
    exact .inl (buildFrame_calm _ _ _)
  · obtain ⟨x, v, hx, he⟩ := bind_returned h
    obtain ⟨rfl, _⟩ := Ending.returned.inj he
    exact .inr (currentExits_of_returned hx)
  · obtain ⟨rfl, _⟩ := Ending.returned.inj h
    exact .inl (Calm.refl s)

/-- So is the delivery of a module fault, which also puts `sstatus` right. -/
theorem deliverModuleFault_cases (h : s.deliverModuleFault = some (.returned s' ret)) :
    ∃ x, Calm { s with sstatus := s.faultSstatus } x ∧ (Calm x s' ∨ CurrentExits x s') := by
  rw [deliverModuleFault] at h
  split at h
  · cases h
  · exact ⟨_, abandonCall_calm true, raiseSigbus_cases (Option.some.inj h)⟩
  · exact ⟨_, abandonCall_calm false, raiseSigbus_cases (Option.some.inj h)⟩

theorem armed_calm (armed : Option (Word × Word)) : Calm s (s.armed armed) := by
  cases armed with
  | none => exact Calm.refl s
  | some w => exact armWaitTimer_calm w.1 w.2

theorem enter_calm (e : Entry) (isCall : Bool) :
    Calm { s with sstatus := userTrapSstatus s.sstatus e.ext } (s.enter e isCall) := by
  rw [enter]
  apply Calm.trans _ (Calm.setThread _)
  · exact Calm.of_tables rfl (fun _ => rfl) rfl rfl rfl rfl rfl rfl
  · exact fun _ => ⟨rfl, rfl, .inl rfl⟩

theorem timerInterrupt_calm (now tickNow : Word) : Calm s (s.timerInterrupt now tickNow) :=
  ((elapseAll_calm now 32 s false).trans (tick_calm tickNow)).trans schedYieldCurrent_calm

theorem softwareInterrupt_calm {flags : Word} (h : s.softwareInterrupt flags env = .returned s' ret) :
    Calm s s' := by
  have hflag : Calm s { s with isNetEventPending := true } :=
    Calm.of_tables rfl (fun _ => rfl) rfl rfl rfl rfl rfl rfl
  rw [softwareInterrupt] at h
  split_ifs at h
  · obtain ⟨rfl, _⟩ := Ending.returned.inj h
    exact (hflag.trans (checkPendingNetEvent_calm env)).trans schedYieldCurrent_calm
  · obtain ⟨rfl, _⟩ := Ending.returned.inj h
    exact schedYieldCurrent_calm

theorem afterSyscall_calm (sepc v : Word) : Calm s (s.afterSyscall sepc v).1 := by
  rw [afterSyscall]
  split
  · exact Calm.of_tables rfl (fun _ => rfl) rfl rfl rfl rfl rfl rfl
  · split_ifs
    · exact Calm.of_tables rfl (fun _ => rfl) rfl rfl rfl rfl rfl rfl
    · exact Calm.setGprs _

theorem checkPendingNetEvent_procs (env : Env) : (s.checkPendingNetEvent env).procs = s.procs := by
  have hfold : ∀ (l : List Word) (x : Runtime),
      (l.foldl (fun s i => (s.wakeBlocked (recvWaitAddr i) (BitVec.allOnes 64)).1) x).procs = x.procs := by
    intro l
    induction l with
    | nil => exact fun _ => rfl
    | cons i l ih => exact fun x => ih _
  rw [checkPendingNetEvent]
  split_ifs
  · rfl
  · exact hfold _ _

theorem afterSyscall_procs (sepc ret : Word) : (s.afterSyscall sepc ret).1.procs = s.procs := by
  rw [afterSyscall]
  split
  · rfl
  · split_ifs <;> rfl

/-! ## The running thread -/

/-- In U mode the running thread belongs to the current process, and no switch is registered. -/
structure AtUser (s : Runtime) : Prop where
  canRun : (s.threads s.current).state.canRun = true
  proc : (s.threads s.current).proc = s.currentProc
  pending : s.pendingTarget = none

/-- During a trap it may have ended or gone to sleep; then a switch is registered. -/
structure InKernel (s : Runtime) : Prop where
  proc : (s.threads s.current).state = .free ∨ (s.threads s.current).proc = s.currentProc
  run : s.pendingTarget = none → (s.threads s.current).state.canRun = true
  target : ∀ t, s.pendingTarget = some t → (s.threads t).state ≠ .free

theorem canRun_ne_free {st : ThreadState} (h : st.canRun = true) : st ≠ .free := by
  rintro rfl
  cases h

theorem AtUser.ne_free (h : s.AtUser) : (s.threads s.current).state ≠ .free := canRun_ne_free h.canRun

theorem AtUser.inKernel (h : s.AtUser) : s.InKernel :=
  ⟨.inr h.proc, fun _ => h.canRun, fun t ht => absurd (h.pending.symm.trans ht) (Option.some_ne_none t).symm⟩

theorem InKernel.calm (h : s.InKernel) (hc : Calm s s') : s'.InKernel where
  proc := by
    rw [hc.current, hc.live, hc.proc, hc.currentProc]
    exact h.proc
  run hn := by
    obtain ⟨hp, hr⟩ := hc.run hn
    rw [hc.current]
    exact hr (h.run hp)
  target t ht := by
    rcases hc.target t ht with hs | hl
    · exact mt (hc.live t).mp (h.target t hs)
    · exact hl

theorem InKernel.setSstatus (h : s.InKernel) (v : Word) : InKernel { s with sstatus := v } :=
  ⟨h.proc, h.run, h.target⟩

theorem AtUser.enter (h : s.AtUser) (e : Entry) (isCall : Bool) : (s.enter e isCall).AtUser := by
  have hc := enter_calm (s := s) e isCall
  have hk := (h.inKernel.setSstatus _).calm hc
  have hp : (s.enter e isCall).pendingTarget = none := h.pending
  refine ⟨hk.run hp, ?_, hp⟩
  rw [hc.current, hc.proc, hc.currentProc]
  exact h.proc

/-- A thread that ends or whose process ends leaves a free slot. -/
theorem exited_state {p : ProcSlot} {code : Word} {t : ThreadId}
    (h : (s.threads t).state = .free ∨ (s.threads t).proc = p) :
    ((s.exited p code).threads t).state = .free := by
  rw [(exited_calm p code).live, markExited_threads]
  split_ifs with hl
  · rfl
  · rcases h with hf | hp
    · exact hf
    · by_contra hne
      exact hl (decide_eq_true ⟨hne, hp⟩)

theorem leftThread_state : (s.leftThread.threads s.current).state = .free := by
  simp only [leftThread, releaseSlot, resetTimer, setThread, Function.update_self, ThreadCtl.release]
  rfl

theorem InKernel.currentExits (h : s.InKernel) (he : CurrentExits s s') : s'.InKernel := by
  obtain ⟨code, next, _, hn, rfl⟩ := he
  refine ⟨.inl ?_, fun hn => absurd hn (Option.some_ne_none next),
    fun _ ht => Option.some.inj ht ▸ nextRunnable_live hn⟩
  rw [show ({ s.exited s.currentProc code with pendingTarget := some next } : Runtime).current = s.current
    from exited_current _ _]
  exact exited_state h.proc

theorem AtUser.did (h : s.AtUser) (hd : Did s s') : s'.InKernel := by
  cases hd with
  | calm hc => exact h.inKernel.calm hc
  | status _ hc => exact (h.inKernel.setSstatus _).calm hc
  | thread t c free state proc saved hc =>
    have hne : s.current ≠ t := by
      rintro rfl
      exact h.ne_free free
    refine InKernel.calm ⟨.inr ?_, fun hn => absurd hn (Option.some_ne_none t), fun u hu => ?_⟩ hc
    · simp only [Function.update_of_ne hne]
      exact h.proc
    · obtain rfl := Option.some.inj hu
      simp only [Function.update_self, state, ne_eq, reduceCtorEq, not_false_eq_true]
  | fork t c p k free unused state proc saved kin hc =>
    have hne : s.current ≠ t := by
      rintro rfl
      exact h.ne_free free
    refine InKernel.calm ⟨.inr ?_, fun hn => absurd hn (Option.some_ne_none t), fun u hu => ?_⟩ hc
    · simp only [Function.update_of_ne hne]
      exact h.proc
    · obtain rfl := Option.some.inj hu
      simp only [Function.update_self, state, ne_eq, reduceCtorEq, not_false_eq_true]
  | reap p hx child dead hc =>
    have hk := h.inKernel.calm hx
    apply InKernel.calm _ hc
    exact ⟨hk.proc, hk.run, hk.target⟩
  | exit p code hp own next hn he =>
    obtain rfl : p = s.currentProc := own.elim id fun ho => ho.trans h.proc
    exact h.inKernel.currentExits ⟨code, next, hp, hn, he⟩
  | leftThread next hn more he =>
    subst he
    refine ⟨.inl ?_, fun hn => absurd hn (Option.some_ne_none next),
      fun _ ht => Option.some.inj ht ▸ nextRunnable_live hn⟩
    rw [show ({ s.leftThread with pendingTarget := some next } : Runtime).current = s.current from
      leftThread_current]
    exact leftThread_state

/-! ## The switch -/

theorem saveCurrent_threads (next : Word) (t : ThreadId) :
    (s.saveCurrent next).threads t =
      if t = s.current ∧ (s.threads s.current).state ≠ .free then
        { s.threads t with
          sepc := next
          sstatus := s.sstatus
          state := if (s.threads t).state = .running then .runnable else (s.threads t).state }
      else s.threads t := by
  rw [saveCurrent]
  by_cases hf : (s.threads s.current).state = .free
  · rw [if_pos hf, if_neg fun h => h.2 hf]
  · rw [if_neg hf]
    by_cases ht : t = s.current
    · subst ht
      rw [if_pos ⟨rfl, hf⟩]
      simp only [setThread, Function.update_self]
    · rw [if_neg fun h => ht h.1]
      simp only [setThread, Function.update_of_ne ht]

/-- Only the threads differ after the first half of a switch. -/
theorem saveCurrent_rest (next : Word) :
    s.saveCurrent next = { s with threads := (s.saveCurrent next).threads } := by
  rw [saveCurrent]
  split_ifs <;> rfl

theorem activate_kin (p q : ProcSlot) : ((s.activate p).procs q).kin = (s.procs q).kin := by
  rw [activate]
  split_ifs with h
  · rfl
  · simp only [setProc]
    by_cases hq : q = s.currentProc
    · subst hq
      rw [Function.update_self]
      rfl
    · rw [Function.update_of_ne hq]

theorem activate_currentProc (p : ProcSlot) : (s.activate p).currentProc = p := by
  rw [activate]
  split_ifs with h
  · exact h
  · rfl

/-- What an address space switch does not touch. -/
theorem activate_rest (p : ProcSlot) :
    (s.activate p).threads = s.threads ∧ (s.activate p).current = s.current ∧
      (s.activate p).pendingTarget = s.pendingTarget ∧ (s.activate p).nextPid = s.nextPid ∧
      (s.activate p).log = s.log ∧ (s.activate p).sstatus = s.sstatus := by
  rw [activate]
  split_ifs <;> exact ⟨rfl, rfl, rfl, rfl, rfl, rfl⟩

theorem switchTo_threads (target t : ThreadId) :
    (s.switchTo target).threads t =
      if t = target then { s.threads t with state := .running } else s.threads t := by
  simp only [switchTo, writeSstatus, (activate_rest _).1, setThread]
  by_cases ht : t = target
  · subst ht
    rw [if_pos rfl, Function.update_self]
  · rw [if_neg ht, Function.update_of_ne ht]

theorem switchTo_atUser (target : ThreadId) : (s.switchTo target).AtUser where
  canRun := by
    rw [switchTo_threads, if_pos]
    · rfl
    · simp only [switchTo, writeSstatus, (activate_rest _).2.1, setThread]
  proc := by
    simp only [switchTo, writeSstatus, activate_currentProc, (activate_rest _).1, (activate_rest _).2.1,
      setThread]
  pending := by
    simp only [switchTo, writeSstatus, (activate_rest _).2.2.1, setThread]

theorem switchTo_rest (target : ThreadId) :
    (s.switchTo target).nextPid = s.nextPid ∧ (s.switchTo target).log = s.log ∧
      ∀ q, ((s.switchTo target).procs q).kin = (s.procs q).kin := by
  refine ⟨?_, ?_, fun q => ?_⟩
  · simp only [switchTo, writeSstatus, (activate_rest _).2.2.2.1, setThread]
  · simp only [switchTo, writeSstatus, (activate_rest _).2.2.2.2.1, setThread]
  · simp only [switchTo, writeSstatus, activate_kin, setThread]

/-- Without a registered switch the running thread goes on. -/
theorem lastly_none (h : s.pendingTarget = none) (next : Word) : s.lastly next = { s with sepc := next } := by
  rw [lastly, h]
  rfl

theorem lastly_some {target : ThreadId} (h : s.pendingTarget = some target) (next : Word) :
    s.lastly next = (s.saveCurrent next).switchTo target := by
  rw [lastly, finalizeSwitch, h]
  rfl

theorem InKernel.lastly (h : s.InKernel) (next : Word) : (s.lastly next).AtUser := by
  cases hp : s.pendingTarget with
  | none =>
    have hr := h.run hp
    rw [lastly_none hp]
    exact ⟨hr, h.proc.resolve_left (canRun_ne_free hr), hp⟩
  | some target =>
    rw [lastly_some hp]
    exact switchTo_atUser target

end Runtime

/-! ## Every state of a run -/

/-- The kernel or user code goes on from here. -/
def Phase.isLive : Phase → Bool
  | .user | .handled _ _ | .deliver _ | .leave _ => true
  | _ => false

/-- What holds of the running thread in each phase. -/
def Machine.Sound (m : Machine) : Prop :=
  match m.phase with
  | .user => m.rt.AtUser
  | .handled _ _ | .deliver _ | .leave _ => m.rt.InKernel
  | _ => True

theorem Ending.machine_sound {e : Ending} {next : Word → Phase}
    (h : ∀ s ret, e = .returned s ret → (⟨next ret, s⟩ : Machine).Sound) : (e.machine next).Sound := by
  cases e with
  | returned s ret => exact h s ret rfl
  | ended s code => trivial

theorem moduleFault_sound {s : Runtime} (h : s.InKernel) : s.moduleFault.Sound := by
  rw [Runtime.moduleFault]
  split
  · rename_i e he
    apply Ending.machine_sound
    rintro s' ret rfl
    obtain ⟨x, hx, hc | hc⟩ := Runtime.deliverModuleFault_cases he
    · exact ((h.setSstatus _).calm hx).calm hc
    · exact ((h.setSstatus _).calm hx).currentExits hc
  · trivial

/-- Every step keeps the running thread in order. -/
theorem step_sound (m : Machine) (a : Act) (h : m.Sound) : (step m a).Sound := by
  cases a with
  | ecall e env =>
    rw [step]
    split_ifs with hp
    · have hu : m.rt.AtUser := by
        rwa [Machine.Sound, hp] at h
      have he := hu.enter e true
      split
      · rename_i r hr
        apply Ending.machine_sound
        rintro s' ret rfl
        exact he.did (Runtime.syscallHandler_did hr he.ne_free)
      · exact h
    · exact h
  | netEvent env =>
    rw [step]
    split
    · rename_i sepc ret hp
      have hk : m.rt.InKernel := by
        rwa [Machine.Sound, hp] at h
      exact (hk.calm (Runtime.checkPendingNetEvent_calm env)).calm (Runtime.afterSyscall_calm sepc ret)
    · exact h
  | netFault =>
    rw [step]
    split
    · rename_i sepc ret hp
      rw [Machine.Sound, hp] at h
      exact moduleFault_sound h
    · exact h
  | timer e now tickNow =>
    rw [step]
    split_ifs with hp
    · rw [Machine.Sound, hp] at h
      exact (Runtime.AtUser.enter h e false).inKernel.calm (Runtime.timerInterrupt_calm now tickNow)
    · exact h
  | software e flags env =>
    rw [step]
    split_ifs with hp
    · rw [Machine.Sound, hp] at h
      apply Ending.machine_sound
      intro s' ret hr
      exact (Runtime.AtUser.enter h e false).inKernel.calm (Runtime.softwareInterrupt_calm hr)
    · exact h
  | otherInterrupt e =>
    rw [step]
    split_ifs with hp
    · rw [Machine.Sound, hp] at h
      exact (Runtime.AtUser.enter h e false).inKernel
    · exact h
  | fault e scause isRetried =>
    rw [step]
    split
    · rename_i hp
      rw [Machine.Sound, hp] at h
      have he := Runtime.AtUser.enter h e false
      dsimp only
      split
      · exact he
      · apply Ending.machine_sound
        intro s' ret hr
        exact he.inKernel.currentExits (Runtime.currentExits_of_returned hr)
    · exact h
  | callFault e armed =>
    rw [step]
    split_ifs with hp
    · rw [Machine.Sound, hp] at h
      have he := (Runtime.AtUser.enter h e true).inKernel
      exact moduleFault_sound (he.calm (Runtime.armed_calm armed))
    · exact h
  | interruptFault e =>
    rw [step]
    split_ifs with hp
    · rw [Machine.Sound, hp] at h
      exact moduleFault_sound (Runtime.AtUser.enter h e false).inKernel
    · exact h
  | deliver =>
    rw [step]
    split
    · rename_i resume hp
      rw [Machine.Sound, hp] at h
      apply Ending.machine_sound
      intro s' ret hr
      rcases Runtime.deliverPending_cases hr with hc | ⟨x, hx, hc⟩
      · exact Runtime.InKernel.calm h hc
      · exact (Runtime.InKernel.calm h hx).currentExits hc
    · exact h
  | leave =>
    rw [step]
    split
    · rename_i next hp
      rw [Machine.Sound, hp] at h
      rw [Machine.Sound, Runtime.leave]
      dsimp only
      split_ifs
      · exact Runtime.InKernel.lastly h next
      · trivial
    · exact h

theorem step_of_not_isLive {m : Machine} (h : m.phase.isLive = false) (a : Act) : step m a = m := by
  obtain ⟨phase, s⟩ := m
  cases phase with
  | supervisor | halted | ended =>
    cases a <;> rfl
  | user | handled | deliver | leave => cases h

theorem boot_sound (entry kstackTop rootPa sstatus : Word) (ctx : TaMemCtx) :
    (boot entry kstackTop rootPa sstatus ctx).Sound := ⟨rfl, rfl, rfl⟩

end Pyremu.Sittim
