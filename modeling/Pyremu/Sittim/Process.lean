import Pyremu.Sittim.Signal

/-!
# Processes, waiting and the system calls over the tables

Creation and exit of threads and processes, `wait4`, futexes, timed waits and
signal delivery. `enclave_call_exit` does not return, so a function that may
reach it says how it ended. Values that the tables do not hold (the clock, the
page pool, descriptors) are inputs.
-/

namespace Pyremu.Sittim

open ByteMem (readLe)

/-- A kernel function returns a value for `a0`, or the enclave ends inside it. -/
inductive Ending where
  | returned (s : Runtime) (ret : Word)
  | ended (s : Runtime) (code : Word)

def Ending.bind (e : Ending) (f : Runtime → Word → Ending) : Ending :=
  match e with
  | .returned s ret => f s ret
  | .ended s code => .ended s code

/-- One round of a waiting call: what its object reports, the clock at its own expiry test, and the
readings inside `block_current`. -/
structure Round where
  ready : Word
  now : Word
  spins : List (Word × Word)

/-- What the rest of the system answers during one trap. -/
structure Env where
  now : Word
  /-- `try_alloc_thread_kstack`, 0 on failure. -/
  kstack : Word
  /-- `fork_address_space`, all ones on failure. -/
  childRoot : Word
  rounds : List Round
  /-- The socket that a receiving call waits on. -/
  socket : Option Word
  /-- Result of a call that these tables take no part in. -/
  ret : Word
  isNetLoaded : Bool
  readySockets : List Word

def CLONE_VM : Word := 0x100
def CLONE_VFORK : Word := 0x4000
def CLONE_THREAD : Word := 0x10000
def CLONE_SETTLS : Word := 0x80000
def CLONE_PARENT_SETTID : Word := 0x100000
def CLONE_CHILD_CLEARTID : Word := 0x200000
def CLONE_CHILD_SETTID : Word := 0x1000000

/-! ## Waiting addresses that no user address equals -/

def WAIT_ADDR_BASE : Word := 0x7fff00000000
def RECV_WAIT_ADDR_BASE : Word := 0x7fff10000000
def POLL_WAIT_ADDR : Word := 0x7fff20000000
def SLEEP_WAIT_ADDR : Word := 0x7fff30000000

def waitAddr (p : ProcSlot) : Word := WAIT_ADDR_BASE + BitVec.ofNat 64 p * 8

def recvWaitAddr (index : Word) : Word := RECV_WAIT_ADDR_BASE + index * 8

def alignUp (x y : Word) : Word := (x + y - 1) &&& ~~~(y - 1)

def alignDown (x y : Word) : Word := x &&& ~~~(y - 1)

/-- `forked_mem_ctx`: the child leaves the rest of the current 2 MiB block alone. -/
def TaMemCtx.forked (m : TaMemCtx) : TaMemCtx :=
  { m with
    mmapPagesUsed := if m.currMmapPa = 0 then m.mmapPagesUsed else alignUp m.mmapPagesUsed 512
    currMmapPa := 0 }

namespace Runtime

variable (s : Runtime)

/-! ## Exit -/

/-- The end of both exits, `switch_away` in one of them: go on with the next runnable thread, or end
the enclave. -/
def goOn (code : Word) : Ending :=
  match s.nextRunnable s.current with
  | some next => .returned { s with pendingTarget := some next } 0
  | none => .ended s code

/-- `exit_process`. -/
def exitProcess (p : ProcSlot) (code : Word) : Ending :=
  if p = 0 then .ended s code
  else
    let parent := (s.procs p).parent
    let s := s.setProc p fun c =>
      { c with
        exited := true
        exitCode := code
        sig := c.sig.clearPending
        itimerNext := 0
        itimerInterval := 0 }
    let s := { s with log := .exited (s.procs p).pid code :: s.log }
    let s := s.freeProcessThreads p
    let s := match parent with
      | some q => (s.wakeBlocked (waitAddr q) 1).1
      | none => s
    s.goOn code

/-- `exit_current_thread`. -/
def exitCurrentThread (code : Word) : Ending :=
  let cur := s.current
  let p := (s.threads cur).proc
  if s.liveThreadCount p ≤ 1 then s.exitProcess p code
  else
    let ctid := (s.threads cur).clearChildThreadId
    let s := if ctid = 0 then s else ((s.storeUserU32 ctid 0).wakeBlocked ctid 1).1
    (s.releaseSlot cur).goOn code

/-! ## Clone -/

def nextFreeProcSlot : Option ProcSlot :=
  ((List.finRange 8).drop 1).find? fun p => !(s.procs p).used

/-- A free thread slot with its kernel stack, allocated when the slot is used for the first time. -/
def takeSlot (env : Env) : Except Word (ThreadId × Word) :=
  match s.nextFreeSlot with
  | none => .error EAGAIN
  | some t =>
    let top := (s.threads t).kstackTop
    if top ≠ 0 then .ok (t, top)
    else if env.kstack = 0 then .error ENOMEM
    else .ok (t, env.kstack)

/-- The new thread takes over the saved registers with `a0 = 0` and its own stack pointer. -/
def startThread (t : ThreadId) (top : Word) (p : ProcSlot) (g : TrapGprs) (metaInfo ctid : Word) :
    Runtime :=
  { s with
    frames := Function.update s.frames t g
    threads := Function.update s.threads t
      ⟨.runnable, p, top, s.sepc + 4, s.sstatus, .none, 0, metaInfo, ctid⟩ }

/-- `spawn_process_thread`. -/
def spawnProcessThread (env : Env) (p : ProcSlot) (usp : Word) : Option (Runtime × ThreadId) :=
  match s.takeSlot env with
  | .error _ => none
  | .ok (t, top) =>
    let g : TrapGprs := ⟨Function.update s.gprs.regs 10 0, usp⟩
    some (s.startThread t top p g (s.gprs.regs 4) 0, t)

/-- `clone_process`. -/
def cloneProcess (env : Env) (flags : Word) : Runtime × Word :=
  if flags &&& CLONE_VFORK ≠ 0 then (s, EINVAL)
  else match s.nextFreeProcSlot with
    | none => (s, EAGAIN)
    | some child =>
      if env.childRoot = BitVec.allOnes 64 then (s, ENOMEM)
      else match s.spawnProcessThread env child s.gprs.spBeforeTrap with
        | none => (s, EAGAIN)
        | some (s, t) =>
          let parent := s.procs s.currentProc
          let pid := s.nextPid
          let s := { s with
            procs := Function.update s.procs child
              { parent with
                used := true
                exited := false
                exitCode := 0
                pid := pid
                ppid := parent.pid
                rootPa := env.childRoot
                parent := some s.currentProc
                sig := parent.sig.inheritedFrom
                itimerNext := 0
                itimerInterval := 0
                memCtx := s.ctx.forked }
            nextPid := pid + 1
            pendingTarget := some t
            log := .created parent.pid pid :: s.log }
          (s, pid)

/-- `clone_thread`. -/
def cloneThread (env : Env) (flags stack ptid tls ctid : Word) : Runtime × Word :=
  if flags &&& CLONE_VM = 0 then s.cloneProcess env flags
  else if flags &&& (CLONE_VM ||| CLONE_THREAD) ≠ CLONE_VM ||| CLONE_THREAD then (s, EINVAL)
  else match s.takeSlot env with
    | .error e => (s, e)
    | .ok (t, top) =>
      let g := s.gprs
      let regs := Function.update g.regs 10 0
      let regs := if flags &&& CLONE_SETTLS ≠ 0 then Function.update regs 4 tls else regs
      let tid := BitVec.ofNat 64 (t + 1)
      let s := s.startThread t top (s.threads s.current).proc ⟨regs, stack⟩
        (if flags &&& CLONE_SETTLS ≠ 0 then tls else g.regs 4)
        (if flags &&& CLONE_CHILD_CLEARTID ≠ 0 then ctid else 0)
      let s := if flags &&& CLONE_PARENT_SETTID ≠ 0 then s.storeUserU32 ptid tid else s
      let s := if flags &&& CLONE_CHILD_SETTID ≠ 0 then s.storeUserU32 ctid tid else s
      ({ s with pendingTarget := some t }, tid)

/-! ## Calls that wait -/

/-- The loop shared by the waiting calls: test, block, and start again from the `ecall` when another
thread is going to run. -/
def waitLoop (addr : Word) (check : Runtime → Round → Option (Runtime × Word)) :
    List Round → Runtime → Option (Runtime × Word)
  | [], _ => none
  | r :: rounds, s =>
    match check s r with
    | some res => some res
    | none =>
      match s.blockCurrent addr r.spins with
      | none => none
      | some s =>
        if s.pendingTarget.isSome then some ({ s with isRestartRequested := true }, 0)
        else waitLoop addr check rounds s

/-- Whether a child with this entry is one that `wait4(pid)` asks for. -/
def wanted (pid : Word) (c : ProcCtl) : Bool := decide (pid = BitVec.allOnes 64 ∨ pid = 0 ∨ pid = c.pid)

/-- An entry that counts as a child of the calling process. -/
def isChild (c : ProcCtl) : Bool := c.used && decide (c.parent = some s.currentProc)

/-- One scan of `wait4`. -/
def wait4Scan (pid status options : Word) (_ : Round) : Option (Runtime × Word) :=
  let slots := (List.finRange 8).drop 1
  match slots.find? fun p => s.isChild (s.procs p) && (s.procs p).exited && wanted pid (s.procs p) with
  | some p =>
    let c := s.procs p
    let s := if status = 0 then s else s.storeUserU32 status ((c.exitCode &&& 0xff) <<< 8)
    let s := { s with log := .reaped c.pid :: s.log }
    some (s.setProc p fun c => { c with used := false }, c.pid)
  | none =>
    if !slots.any fun p => s.isChild (s.procs p) then some (s, ECHILD)
    else if options &&& 1 ≠ 0 then some (s, 0)
    else none

/-- `wait4`. -/
def wait4 (pid status options : Word) (rounds : List Round) : Option (Runtime × Word) :=
  waitLoop (waitAddr s.currentProc) (fun s => s.wait4Scan pid status options) rounds s

/-- A `timespec` in nanoseconds; `none` when a field is out of range. -/
def readTimespec (m : ByteMem.Mem) (addr : Word) : Option Word :=
  let sec := readU64 m addr
  let nsec := readU64 m (addr + 8)
  if sec.toInt < 0 ∨ nsec.toInt < 0 ∨ 1000000000 ≤ nsec.toInt then none
  else some (saturatingAdd (BitVec.ofNat 64 (min (sec.toNat * 1000000000) (2 ^ 64 - 1))) nsec)

/-- The running thread keeps the deadline of an earlier attempt at the same call. -/
def armWaitTimer (now nsec : Word) : Runtime :=
  if s.hasWaitTimer s.current then s else s.setWaitTimer now s.current nsec

/-- `nanosleep_handler`. -/
def nanosleep (env : Env) (req : Word) : Option (Runtime × Word) :=
  if req = 0 then some (s, EFAULT)
  else match readTimespec s.mem req with
    | none => some (s, EINVAL)
    | some nsec =>
      waitLoop SLEEP_WAIT_ADDR (fun s r =>
        if s.isExpired r.now s.current then some (s.resetTimer s.current, 0) else none)
        env.rounds (s.armWaitTimer env.now nsec)

/-- `ppoll_handler`; a round's `ready` is the result of `scan_fds`. `MAX_FD` is 64. -/
def ppoll (env : Env) (fds nfds timeout : Word) : Option (Runtime × Word) :=
  if 64 < nfds.toNat then some (s, EINVAL)
  else if fds = 0 ∧ nfds ≠ 0 then some (s, EFAULT)
  else match (if timeout = 0 then some none else (readTimespec s.mem timeout).map some) with
    | none => some (s, EINVAL)
    | some limit =>
      let s := match limit with
        | some nsec => s.armWaitTimer env.now nsec
        | none => s
      waitLoop POLL_WAIT_ADDR (fun s r =>
        if r.ready ≠ 0 then some (s.resetTimer s.current, r.ready)
        else if s.isExpired r.now s.current then some (s.resetTimer s.current, 0)
        else none) env.rounds s

/-- The blocking part of `recvfrom` and `recvmsg`; `ready` says that a datagram was taken. -/
def recv (env : Env) : Option (Runtime × Word) :=
  match env.socket with
  | none => some (s, env.ret)
  | some index =>
    waitLoop (recvWaitAddr index) (fun s r => if r.ready ≠ 0 then some (s, env.ret) else none)
      env.rounds s

/-! ## Futexes -/

/-- `futex_wait`. It blocks once and does not look at the word again. -/
def futexWait (env : Env) (uaddr val : Word) : Option (Runtime × Word) :=
  if uaddr &&& 3 ≠ 0 then some (s, EINVAL)
  else if (readLe s.mem uaddr.toNat 4).setWidth 32 ≠ val.setWidth 32 then some (s, EAGAIN)
  else
    let spins := match env.rounds with
      | r :: _ => r.spins
      | [] => []
    (s.blockCurrent uaddr spins).map fun s => (s, 0)

/-- `futex`. -/
def futex (env : Env) (uaddr op val arg3 uaddr2 : Word) : Option (Runtime × Word) :=
  match (op &&& 0x7f).toNat with
  | 0 => s.futexWait env uaddr val
  | 1 => some (s.wakeBlocked uaddr val)
  | 3 => some (s.requeueBlocked uaddr val arg3 uaddr2)
  | _ => some (s, EINVAL)

/-! ## Signals between processes -/

def slotOfPid (pid : Word) : Option ProcSlot :=
  (List.finRange 8).find? fun p => (s.procs p).used && decide ((s.procs p).pid = pid)

/-- `kill`, also behind `tkill` and `tgkill`. -/
def kill (pid sig : Word) : Runtime × Word :=
  if sig = 0 then (s, 0)
  else if 32 ≤ sig.toNat then (s, EINVAL)
  else
    let post := fun (s : Runtime) (p : ProcSlot) =>
      s.setProc p fun c => { c with sig := c.sig.post (Fin.ofNat 32 sig.toNat) }
    if pid = 0 ∨ pid = (s.procs s.currentProc).pid then (post s s.currentProc, 0)
    else match s.slotOfPid pid with
      | none => (s, ESRCH)
      | some p => (if p = s.currentProc then post s p else (post s p).wakeProcess p, 0)

/-- `deliver_pending`; the value is the address to resume at. -/
def deliverPending (sepc : Word) : Ending :=
  match s.currentSig.takePending with
  | none => .returned s sepc
  | some (st, sig) =>
    let s := s.setCurrentSig st
    match st.disposition sig with
    | .ignore => .returned s sepc
    | .terminate => (s.exitProcess s.currentProc (SIGNAL_EXIT_OFFSET + BitVec.ofNat 64 sig)).bind
        fun s _ => .returned s sepc
    | .handle handler =>
      let r := s.buildFrame sig handler sepc
      .returned r.1 r.2

/-! ## Interval timers -/

def saturatingMul (a : Word) (k : Nat) : Word := BitVec.ofNat 64 (min (a.toNat * k) (2 ^ 64 - 1))

def toTicks (sec usec : Word) : Word :=
  saturatingMul sec TIMER_FREQ + BitVec.ofNat 64 ((saturatingMul usec TIMER_FREQ).toNat / 1000000)

/-- `from_ticks`: seconds and microseconds. -/
def fromTicks (ticks : Word) : Word × Word :=
  (BitVec.ofNat 64 (ticks.toNat / TIMER_FREQ),
    BitVec.ofNat 64 (ticks.toNat % TIMER_FREQ * 1000000 / TIMER_FREQ))

/-- `setitimer`. -/
def setitimer (now which newValue oldValue : Word) : Runtime × Word :=
  let p := s.procs s.currentProc
  let s :=
    if oldValue = 0 then s
    else
      let i := fromTicks p.itimerInterval
      let r := fromTicks (if p.itimerNext ≤ now then 0 else p.itimerNext - now)
      { s with mem := writeWords s.mem oldValue [i.1, i.2, r.1, r.2] }
  if which ≠ 0 ∨ newValue = 0 then (s, 0)
  else
    let value := toTicks (readU64 s.mem (newValue + 16)) (readU64 s.mem (newValue + 24))
    let interval := toTicks (readU64 s.mem newValue) (readU64 s.mem (newValue + 8))
    (s.setProc s.currentProc fun c =>
      if value = 0 then { c with itimerNext := 0, itimerInterval := 0 }
      else { c with itimerNext := now + value, itimerInterval := interval }, 0)

/-- `advance_itimer` and, when it fires, `wake_process`. -/
def tickProc (now : Word) (s : Runtime) (p : ProcSlot) : Runtime :=
  let c := s.procs p
  if !c.used || c.exited || decide (c.itimerNext = 0) || decide (now < c.itimerNext) then s
  else
    (s.setProc p fun c =>
      { c with
        itimerNext := if c.itimerInterval ≠ 0 then c.itimerNext + c.itimerInterval else 0
        sig := c.sig.post SIGALRM }).wakeProcess p

/-- `tick`. -/
def tick (now : Word) : Runtime := (List.finRange 8).foldl (tickProc now) s

/-! ## Network events -/

/-- `check_pending_net_event`. -/
def checkPendingNetEvent (env : Env) : Runtime :=
  if !s.isNetEventPending || !env.isNetLoaded then s
  else
    let s := { s with isNetEventPending := false }
    let s := env.readySockets.foldl (fun s i => (s.wakeBlocked (recvWaitAddr i) (BitVec.allOnes 64)).1) s
    (s.wakeBlocked POLL_WAIT_ADDR (BitVec.allOnes 64)).1

end Runtime

end Pyremu.Sittim
