import Pyremu.Csr
import Pyremu.Lib.ByteMem
import Pyremu.Lib.Sweep

/-!
# Tables of the enclave runtime

Threads, wait timers and processes live in fixed tables of the S-mode runtime;
a slot is an index and is used again after its owner has gone. One hart runs
the runtime with interrupts disabled, so each function below is one step.
-/

namespace Pyremu.Sittim

open Sweep

abbrev ThreadId := Fin 32

abbrev ProcSlot := Fin 8

instance neZero_threads : NeZero 32 := ⟨by decide⟩

instance neZero_procs : NeZero 8 := ⟨by decide⟩

/-- An error number as it appears in `a0`. -/
def errno (n : Nat) : Word := -BitVec.ofNat 64 n

def ESRCH : Word := errno 3
def ECHILD : Word := errno 10
def EAGAIN : Word := errno 11
def ENOMEM : Word := errno 12
def EFAULT : Word := errno 14
def ENODEV : Word := errno 19
def EINVAL : Word := errno 22

/-- Ticks of the clock source in a second. -/
def TIMER_FREQ : Nat := 100000

/-! ## Records -/

inductive ThreadState where
  | free
  | runnable
  | running
  | blocked
  deriving DecidableEq, Repr

/-- Where a thread stood when it entered S mode. -/
inductive TrapResume where
  | none
  | ecall (next : Word)
  | interrupted (pc : Word)
  deriving DecidableEq, Repr

structure ThreadCtl where
  state : ThreadState
  proc : ProcSlot
  kstackTop : Word
  sepc : Word
  sstatus : Word
  trapResume : TrapResume
  waitAddr : Word
  threadMetaInfoAddr : Word
  clearChildThreadId : Word
  deriving DecidableEq, Repr

def ThreadCtl.freed : ThreadCtl := ⟨.free, 0, 0, 0, 0, .none, 0, 0, 0⟩

/-- Registers saved by the trap entry, with the stack pointer from before the trap. -/
structure TrapGprs where
  regs : Fin 32 → Word
  spBeforeTrap : Word

inductive TimerState where
  | free
  | waiting
  | elapsed
  deriving DecidableEq, Repr

structure Timer where
  state : TimerState
  deadline : Word
  deriving DecidableEq, Repr

def Timer.freed : Timer := ⟨.free, 0⟩

/-- Dispositions, mask and pending set of one process; bit `n` stands for signal `n`. -/
structure SigState where
  handler : Fin 32 → Word
  blocked : Word
  pending : Word

/-- How far the heap and the mapping region of an address space have advanced. -/
structure TaMemCtx where
  heapTop : Word
  heapMappedEnd : Word
  mmapPagesUsed : Word
  currMmapPa : Word

structure ProcCtl where
  used : Bool
  pid : Word
  ppid : Word
  exited : Bool
  exitCode : Word
  rootPa : Word
  parent : Option ProcSlot
  sig : SigState
  itimerNext : Word
  itimerInterval : Word
  memCtx : TaMemCtx

def SigState.new : SigState := ⟨fun _ => 0, 0, 0⟩

def ProcCtl.freed : ProcCtl := ⟨false, 0, 0, false, 0, 0, none, .new, 0, 0, ⟨0, 0, 0, 0⟩⟩

/-- What happened to the process table. The runtime keeps no such record: pids are never used
again, so the log says who created whom after the slots have changed hands. -/
inductive ProcEvent where
  | created (parent child : Word)
  | exited (pid code : Word)
  | reaped (pid : Word)
  deriving DecidableEq, Repr

structure Runtime where
  threads : ThreadId → ThreadCtl
  frames : ThreadId → TrapGprs
  timers : ThreadId → Timer
  procs : ProcSlot → ProcCtl
  current : ThreadId
  pendingTarget : Option ThreadId
  isRestartRequested : Bool
  currentProc : ProcSlot
  nextPid : Word
  sigreturnSepc : Option Word
  isNetEventPending : Bool
  ctx : TaMemCtx
  rootPa : Word
  sepc : Word
  sstatus : Word
  /-- User memory under the current `satp`. -/
  mem : ByteMem.Mem
  log : List ProcEvent

namespace Runtime

variable (s : Runtime)

def setThread (t : ThreadId) (f : ThreadCtl → ThreadCtl) : Runtime :=
  { s with threads := Function.update s.threads t (f (s.threads t)) }

def setProc (p : ProcSlot) (f : ProcCtl → ProcCtl) : Runtime :=
  { s with procs := Function.update s.procs p (f (s.procs p)) }

/-- The registers of the running thread. -/
def gprs : TrapGprs := s.frames s.current

def setGprs (g : TrapGprs) : Runtime := { s with frames := Function.update s.frames s.current g }

def setReg (r : Fin 32) (v : Word) : Runtime :=
  s.setGprs { s.gprs with regs := Function.update s.gprs.regs r v }

/-- `csrw sstatus`. -/
def writeSstatus (v : Word) : Runtime :=
  { s with sstatus := (s.sstatus &&& ~~~sstatusWriteMask) ||| (v &&& sstatusWriteMask) }

def storeUserU32 (addr val : Word) : Runtime :=
  { s with mem := ByteMem.writeLe s.mem addr.toNat 4 val }

/-! ## Wait timers -/

/-- `nsec_to_ticks`. -/
def nsecToTicks (nsec : Word) : Word :=
  BitVec.ofNat 64 (min ((nsec.toNat * TIMER_FREQ + 999999999) / 1000000000) (2 ^ 64 - 1))

/-- `u64::saturating_add`. -/
def saturatingAdd (a b : Word) : Word := BitVec.ofNat 64 (min (a.toNat + b.toNat) (2 ^ 64 - 1))

def setWaitTimer (now : Word) (t : ThreadId) (nsec : Word) : Runtime :=
  { s with timers := Function.update s.timers t ⟨.waiting, saturatingAdd now (nsecToTicks nsec)⟩ }

def resetTimer (t : ThreadId) : Runtime :=
  { s with timers := Function.update s.timers t .freed }

def hasWaitTimer (t : ThreadId) : Bool := decide ((s.timers t).state ≠ .free)

def isExpired (now : Word) (t : ThreadId) : Bool :=
  match (s.timers t).state with
  | .free => false
  | .waiting => decide ((s.timers t).deadline ≤ now)
  | .elapsed => true

/-- The earliest deadline of a timer that still waits. -/
def nextDeadline : Option Word :=
  (List.finRange 32).foldl (fun earliest t =>
    if (s.timers t).state ≠ .waiting then earliest
    else match earliest with
      | some e => if e ≤ (s.timers t).deadline then some e else some (s.timers t).deadline
      | none => some (s.timers t).deadline) none

def isDue (now : Word) (t : ThreadId) : Bool :=
  decide ((s.timers t).state = .waiting ∧ (s.timers t).deadline ≤ now)

/-- `elapse_due`: the first timer that is due becomes elapsed. -/
def elapseDue (now : Word) : Option (Runtime × ThreadId) :=
  ((List.finRange 32).find? (s.isDue now)).map fun t =>
    ({ s with timers := Function.update s.timers t { s.timers t with state := .elapsed } }, t)

/-! ## Scheduling -/

def isBlocked (t : ThreadId) : Bool := decide ((s.threads t).state = .blocked)

def isRunnable (t : ThreadId) : Bool := decide ((s.threads t).state = .runnable)

def isBlockedOn (t : ThreadId) (addr : Word) : Bool :=
  decide ((s.threads t).state = .blocked ∧ (s.threads t).waitAddr = addr)

def isLiveThreadOf (t : ThreadId) (p : ProcSlot) : Bool :=
  decide ((s.threads t).state ≠ .free ∧ (s.threads t).proc = p)

def liveThreadCount (p : ProcSlot) : Nat := (List.finRange 32).countP (s.isLiveThreadOf · p)

/-- `next_free_slot`, from slot 1 on. -/
def nextFreeSlot : Option ThreadId :=
  ((List.finRange 32).drop 1).find? fun t => decide ((s.threads t).state = .free)

/-- `next_runnable`: the first runnable thread behind `after`. -/
def nextRunnable (after : ThreadId) : Option ThreadId := findBehind 32 s.isRunnable after

end Runtime

/-- `make_runnable`. -/
def ThreadCtl.makeRunnable (ctl : ThreadCtl) : ThreadCtl := { ctl with state := .runnable, waitAddr := 0 }

/-- `release_slot`: the kernel stack stays with the slot. -/
def ThreadCtl.release (ctl : ThreadCtl) : ThreadCtl := { ThreadCtl.freed with kstackTop := ctl.kstackTop }

namespace Runtime

variable (s : Runtime)

def wakeThread (t : ThreadId) : Runtime × Bool :=
  if s.isBlocked t then (s.setThread t ThreadCtl.makeRunnable, true) else (s, false)

/-- Wake the owner of each timer that is due; the flag says whether one was blocked. The table has
32 timers, so the loop is over after 32 turns. -/
def elapseAll (now : Word) : Nat → Runtime → Bool → Runtime × Bool
  | 0, s, woken => (s, woken)
  | n + 1, s, woken =>
    match s.elapseDue now with
    | none => (s, woken)
    | some (s', t) => elapseAll now n (s'.wakeThread t).1 (woken || (s'.wakeThread t).2)

/-- `pick_switch_target`. -/
def pickSwitchTarget (now : Word) (after : ThreadId) : Runtime × Option ThreadId :=
  match s.nextRunnable after with
  | some next => (s, some next)
  | none =>
    let r := elapseAll now 32 s false
    (r.1, if r.2 then r.1.nextRunnable after else none)

/-- `wake_blocked`. -/
def wakeBlocked (addr nr : Word) : Runtime × Word :=
  let r := sweep (fun ctl => decide (ctl.state = .blocked ∧ ctl.waitAddr = addr))
    ThreadCtl.makeRunnable nr.toNat (List.finRange 32) 0 s.threads
  ({ s with threads := r.1 }, BitVec.ofNat 64 r.2)

/-- `requeue_blocked`. -/
def requeueBlocked (addr nrWake nrRequeue target : Word) : Runtime × Word :=
  let r := s.wakeBlocked addr nrWake
  let q := sweep (fun ctl => decide (ctl.state = .blocked ∧ ctl.waitAddr = addr))
    (fun ctl => { ctl with waitAddr := target }) nrRequeue.toNat (List.finRange 32) 0 r.1.threads
  ({ r.1 with threads := q.1 }, r.2)

/-- `wake_process`. -/
def wakeProcess (p : ProcSlot) : Runtime :=
  { s with threads := fun t =>
      if (s.threads t).state = .blocked ∧ (s.threads t).proc = p then (s.threads t).makeRunnable
      else s.threads t }

def releaseSlot (t : ThreadId) : Runtime := (s.setThread t ThreadCtl.release).resetTimer t

/-- `free_process_threads`. -/
def freeProcessThreads (p : ProcSlot) : Runtime :=
  { s with
    threads := fun t => if s.isLiveThreadOf t p then (s.threads t).release else s.threads t
    timers := fun t => if s.isLiveThreadOf t p then .freed else s.timers t }

/-- `sched_yield_current` and `maybe_preempt`. -/
def schedYieldCurrent : Runtime :=
  match s.nextRunnable s.current with
  | some next => { s with pendingTarget := some next }
  | none => s

/-- The loop of `block_current`. Each round reads the clock twice, in `pick_switch_target` and in
`is_expired`; a list of readings that runs out leaves the thread in the loop. Handing the hart to
the host in between touches none of the tables. -/
def blockLoop (s : Runtime) : List (Word × Word) → Option Runtime
  | [] => none
  | (now, now') :: spins =>
    if s.isBlocked s.current then
      match s.pickSwitchTarget now s.current with
      | (s', some next) => some { s' with pendingTarget := some next }
      | (s', none) =>
        if s'.isExpired now' s'.current then some (s'.wakeThread s'.current).1
        else blockLoop s' spins
    else some s

/-- `block_current`. -/
def blockCurrent (addr : Word) (spins : List (Word × Word)) : Option Runtime :=
  blockLoop (s.setThread s.current fun ctl => { ctl with state := .blocked, waitAddr := addr }) spins

/-- `current_ta_mem_ctx` is the field `ctx`; `activate` swaps it with the copy of the process. -/
def activate (p : ProcSlot) : Runtime :=
  if s.currentProc = p then s
  else
    let s := s.setProc s.currentProc fun c => { c with memCtx := s.ctx }
    { s with ctx := (s.procs p).memCtx, rootPa := (s.procs p).rootPa, currentProc := p }

/-- The first half of `finalize_switch`: a thread that still exists keeps where it resumes. -/
def saveCurrent (resumeSepc : Word) : Runtime :=
  if (s.threads s.current).state = .free then s
  else s.setThread s.current fun ctl =>
    { ctl with
      sepc := resumeSepc
      sstatus := s.sstatus
      state := if ctl.state = .running then .runnable else ctl.state }

/-- The second half: the target gets the hart, its address space and its CSRs. -/
def switchTo (target : ThreadId) : Runtime :=
  let r := { s with pendingTarget := none, current := target }
  let r := r.setThread target fun ctl => { ctl with state := .running }
  let r := r.activate (r.threads target).proc
  { r with sepc := (r.threads target).sepc }.writeSstatus (r.threads target).sstatus

/-- `finalize_switch`. -/
def finalizeSwitch (resumeSepc : Word) : Runtime :=
  match s.pendingTarget with
  | none => s.saveCurrent resumeSepc
  | some target => (s.saveCurrent resumeSepc).switchTo target

end Runtime

end Pyremu.Sittim
