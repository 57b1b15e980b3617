import Pyremu.Sittim.Process

/-!
# The kernel as a machine

Between two traps user code does what it likes with its registers and its
memory. A trap is taken in steps: the handler, the pending network event, the
delivery of a signal, and the switch to another thread on the way out. The
steps of one `ecall` together are `trap_dispatch`.
-/

namespace Pyremu.Sittim

/-- Where the hart stands. -/
inductive Phase where
  | user
  /-- The handler of an `ecall` has returned. -/
  | handled (sepc ret : Word)
  /-- `deliver_pending` is next. -/
  | deliver (resume : Word)
  /-- The test of `switch_pending` is next. -/
  | leave (next : Word)
  /-- The final `sret` stayed in S mode. -/
  | supervisor
  | halted
  | ended (code : Word)
  deriving DecidableEq, Repr

structure Machine where
  phase : Phase
  rt : Runtime

/-- Fields of `sstatus` that change while user code runs. -/
def sstatusExtFields : Word := mstatusFs ||| mstatusVs ||| mstatusXs ||| mstatusSd

/-- Fields of `sstatus` that belong to user code: the extension states and its byte order. -/
def sstatusUserFields : Word := sstatusExtFields ||| mstatusUbe

/-- What the trap entry finds: the registers and the memory that user code left, its `pc`, and the
extension states. -/
structure Entry where
  gprs : TrapGprs
  mem : ByteMem.Mem
  sepc : Word
  ext : Word

inductive Act where
  | ecall (e : Entry) (env : Env)
  | timer (e : Entry) (now tickNow : Word)
  | software (e : Entry) (flags : Word) (env : Env)
  | otherInterrupt (e : Entry)
  | fault (e : Entry) (scause : Word) (isRetried : Bool)
  /-- A module faults inside a call, after `ppoll` may have set its timer. -/
  | callFault (e : Entry) (armed : Option (Word × Word))
  /-- A module faults inside an interrupt. -/
  | interruptFault (e : Entry)
  | netEvent (env : Env)
  /-- A module faults while the pending network event is served. -/
  | netFault
  | deliver
  | leave

/-- `sret` as the hart executes it. -/
def sretSstatus (v : Word) : Word :=
  let m := v &&& ~~~mstatusSie
  let m := if v.getLsbD 5 then m ||| mstatusSie else m
  (m ||| mstatusSpie) &&& ~~~mstatusSpp

/-- A trap to S mode from `spp`. -/
def trapSstatus (v spp : Word) : Word := (stackIe v mstatusSie mstatusSpie &&& ~~~mstatusSpp) ||| spp

/-- User code may change the extension states only. -/
def withExt (v ext : Word) : Word := (v &&& ~~~sstatusExtFields) ||| (ext &&& sstatusExtFields)

/-- `sstatus` in a trap from U mode, when `v` was there at the `sret` before it. -/
def userTrapSstatus (v ext : Word) : Word := trapSstatus (withExt (sretSstatus v) ext) 0

/-- `user_fault_signal`. -/
def userFaultSignal (scause : Word) : Word :=
  match scause.toNat with
  | 0 | 4 | 6 => 7
  | 2 => 4
  | 3 => 5
  | _ => 11

namespace Runtime

variable (s : Runtime)

/-- The trap entry and the first lines of `trap_dispatch`. -/
def enter (e : Entry) (isCall : Bool) : Runtime :=
  let s := { s with sepc := e.sepc, sstatus := userTrapSstatus s.sstatus e.ext, mem := e.mem }.setGprs e.gprs
  s.setThread s.current fun ctl =>
    { ctl with trapResume := if isCall then .ecall (e.sepc + 4) else .interrupted e.sepc }

def done (r : Runtime × Word) : Ending := .returned r.1 r.2

/-- `syscall_handler` without the network event at its end, by the number in `a7`. -/
def syscallHandler (env : Env) : Option Ending :=
  let a := s.gprs.regs
  match (a 17).toNat with
  | 73 => (s.ppoll env (a 10) (a 11) (a 12)).map done
  | 93 => some (s.exitCurrentThread (a 10))
  | 94 => some (s.exitProcess s.currentProc (a 10))
  | 96 => some (.returned (s.setThread s.current fun ctl => { ctl with clearChildThreadId := a 10 })
      (BitVec.ofNat 64 (s.current + 1)))
  | 98 => (s.futex env (a 10) (a 11) (a 12) (a 13) (a 14)).map done
  | 101 => (s.nanosleep env (a 10)).map done
  | 103 => some (done (s.setitimer env.now (a 10) (a 11) (a 12)))
  | 124 => some (.returned s.schedYieldCurrent 0)
  | 129 | 130 => some (done (s.kill (a 10) (a 11)))
  | 131 => some (done (s.kill (a 10) (a 12)))
  | 134 => some (done (s.sigaction (a 10) (a 11) (a 12)))
  | 135 => some (done (s.sigprocmask (a 10) (a 11) (a 12) (a 13)))
  | 139 => some (done s.sigreturn)
  | 172 => some (.returned s (s.procs s.currentProc).pid)
  | 173 => some (.returned s (s.procs s.currentProc).ppid)
  | 178 => some (.returned s (BitVec.ofNat 64 (s.current + 1)))
  | 207 | 212 => (s.recv env).map done
  | 220 => some (done (s.cloneThread env (a 10) (a 11) (a 12) (a 13) (a 14)))
  | 260 => (s.wait4 (a 10) (a 11) (a 12) env.rounds).map done
  | _ => some (.returned s env.ret)

/-- Where an `ecall` resumes: at the address of a signal frame, at the call itself when it is to be
repeated, or behind it with the result in `a0`. -/
def afterSyscall (sepc ret : Word) : Runtime × Word :=
  match s.sigreturnSepc with
  | some v => ({ s with sigreturnSepc := none }, v)
  | none =>
    if s.isRestartRequested then ({ s with isRestartRequested := false }, sepc)
    else (s.setReg 10 ret, sepc + 4)

/-- The `STI` branch of `interrupt_dispatch`. -/
def timerInterrupt (now tickNow : Word) : Runtime :=
  ((elapseAll now 32 s false).1.tick tickNow).schedYieldCurrent

/-- The `SSI` branch of `interrupt_dispatch`. -/
def softwareInterrupt (flags : Word) (env : Env) : Ending :=
  if flags &&& 1 ≠ 0 then .ended s 0
  else
    let s := if flags &&& 2 ≠ 0 then
        { s with isNetEventPending := true }.checkPendingNetEvent env
      else s
    .returned s.schedYieldCurrent 0

/-- `sstatus` when a module fault goes back to U mode. The nested trap came from S mode. -/
def faultSstatus : Word :=
  let nested := trapSstatus s.sstatus mstatusSpp
  ({ s with sstatus := nested }.writeSstatus ((nested &&& ~~~mstatusSpp) ||| mstatusSpie)).sstatus

/-- The abandoned call is not repeated and reports its failure. -/
def abandonCall (isCall : Bool) : Runtime :=
  let s := { s with isRestartRequested := false, sstatus := s.faultSstatus }
  if isCall then s.setReg 10 ENODEV else s

/-- `deliver_module_fault` from the point where it knows whom to tell. -/
def raiseSigbus (pc : Word) : Ending :=
  match s.currentSig.disposition SIGBUS with
  | .handle handler => .returned (s.buildFrame SIGBUS handler pc).1 (s.buildFrame SIGBUS handler pc).2
  | .terminate => (s.exitProcess s.currentProc (SIGNAL_EXIT_OFFSET + BitVec.ofNat 64 SIGBUS)).bind
      fun s _ => .returned s pc
  | .ignore => .returned s pc

/-- `deliver_module_fault`: the value is the address to resume at, `none` when the fault cannot be
handed to anyone. -/
def deliverModuleFault : Option Ending :=
  match (s.threads s.current).trapResume with
  | .none => none
  | .ecall next => some ((s.abandonCall true).raiseSigbus next)
  | .interrupted pc => some ((s.abandonCall false).raiseSigbus pc)

/-- `is_unmatched_access_fault`. -/
def isUnmatchedAccessFault (scause : Word) : Bool := decide (scause = 1 ∨ scause = 5 ∨ scause = 7)

end Runtime

/-- The machine after a step of the kernel: on to `next`, or the enclave has ended. -/
def Ending.machine (e : Ending) (next : Word → Phase) : Machine :=
  match e with
  | .returned s ret => ⟨next ret, s⟩
  | .ended s code => ⟨.ended code, s⟩

/-- `switch_pending` and `finalize_switch`. -/
def Runtime.lastly (s : Runtime) (next : Word) : Runtime :=
  if s.pendingTarget.isSome then s.finalizeSwitch next else { s with sepc := next }

/-- The `sret` of `entry.s` goes where `SPP` says. -/
def Runtime.leave (s : Runtime) (next : Word) : Machine :=
  ⟨if (s.lastly next).sstatus &&& mstatusSpp = 0 then .user else .supervisor, s.lastly next⟩

def Runtime.moduleFault (s : Runtime) : Machine :=
  match s.deliverModuleFault with
  | some e => e.machine .leave
  | none => ⟨.halted, s⟩

/-- The wait timer that a call may have set before a module faulted: clock and time limit. -/
def Runtime.armed (s : Runtime) : Option (Word × Word) → Runtime
  | some (now, nsec) => s.armWaitTimer now nsec
  | none => s

/-- One step. An act that does not fit the phase, and a call that does not come back, change nothing. -/
def step (m : Machine) : Act → Machine
  | .ecall e env =>
    if m.phase = .user then
      match (m.rt.enter e true).syscallHandler env with
      | some r => r.machine (.handled e.sepc)
      | none => m
    else m
  | .netEvent env =>
    match m.phase with
    | .handled sepc ret =>
      let r := (m.rt.checkPendingNetEvent env).afterSyscall sepc ret
      ⟨.deliver r.2, r.1⟩
    | _ => m
  | .netFault =>
    match m.phase with
    | .handled _ _ => m.rt.moduleFault
    | _ => m
  | .timer e now tickNow =>
    if m.phase = .user then ⟨.deliver e.sepc, (m.rt.enter e false).timerInterrupt now tickNow⟩ else m
  | .software e flags env =>
    if m.phase = .user then ((m.rt.enter e false).softwareInterrupt flags env).machine fun _ => .deliver e.sepc
    else m
  | .otherInterrupt e =>
    if m.phase = .user then ⟨.deliver e.sepc, m.rt.enter e false⟩ else m
  | .fault e scause isRetried =>
    if m.phase = .user then
      let s := m.rt.enter e false
      if Runtime.isUnmatchedAccessFault scause && isRetried then ⟨.user, s⟩
      else (s.exitProcess s.currentProc (128 + userFaultSignal scause)).machine fun _ => .leave e.sepc
    else m
  | .callFault e armed =>
    if m.phase = .user then ((m.rt.enter e true).armed armed).moduleFault else m
  | .interruptFault e => if m.phase = .user then (m.rt.enter e false).moduleFault else m
  | .deliver =>
    match m.phase with
    | .deliver resume => (m.rt.deliverPending resume).machine .leave
    | _ => m
  | .leave =>
    match m.phase with
    | .leave next => m.rt.leave next
    | _ => m

/-- `trap_dispatch` for an `ecall`, up to the `sret`. -/
def trapDispatch (m : Machine) (e : Entry) (env : Env) : Machine :=
  step (step (step (step m (.ecall e env)) (.netEvent env)) .deliver) .leave

/-- The state handed to the payload by `main_after_mmu`: one process with one thread. -/
def boot (entry kstackTop rootPa sstatus : Word) (ctx : TaMemCtx) : Machine :=
  let v := (sstatus ||| mstatusSpie ||| mstatusSum) &&& ~~~(mstatusSpp ||| mstatusSie)
  let g : TrapGprs := ⟨fun _ => 0, 0⟩
  let s : Runtime :=
    { threads := fun t => if t = 0 then ⟨.running, 0, kstackTop, entry, v, .none, 0, 0, 0⟩ else .freed
      frames := fun _ => g
      timers := fun _ => .freed
      procs := fun p =>
        if p = 0 then { ProcCtl.freed with used := true, pid := 1, rootPa := rootPa } else .freed
      current := 0
      pendingTarget := none
      isRestartRequested := false
      currentProc := 0
      nextPid := 2
      sigreturnSepc := none
      isNetEventPending := false
      ctx := ctx
      rootPa := rootPa
      sepc := entry
      sstatus := sstatus
      mem := fun _ => 0
      log := [] }
  ⟨.user, s.writeSstatus v⟩

/-! ## Fixed runs -/

/-- Registers at an `ecall` with number `num` and arguments from `a0` on. -/
def callEntry (num : Word) (args : List Word) : Entry :=
  ⟨⟨fun r => if r = 17 then num else if 10 ≤ r.val then args.getD (r.val - 10) 0 else 0, 0⟩,
    fun _ => 0, 0, 0⟩

/-- A quiet system: clock at 0, allocations succeed, waiting calls get one round. -/
def quietEnv (kstack : Word) : Env :=
  ⟨0, kstack, 0x80000000, [⟨0, 0, [(0, 0)]⟩], none, 0, false, []⟩

/-- All steps of one `ecall`. -/
def trapActs (e : Entry) (env : Env) : List Act := [.ecall e env, .netEvent env, .deliver, .leave]

def callActs (kstack num : Word) (args : List Word) : List Act :=
  trapActs (callEntry num args) (quietEnv kstack)

def quietBoot : Machine := boot 0x10000 0x2000 0x80200000 0 ⟨0, 0, 0, 0⟩

/-- The runtime after a list of calls: number, arguments, and the next kernel stack. -/
def afterCalls (calls : List (Word × List Word × Word)) : Runtime :=
  ((calls.flatMap fun c => callActs c.2.2 c.1 c.2.1).foldl step quietBoot).rt

end Pyremu.Sittim
