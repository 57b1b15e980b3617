import Pyremu.Sittim.Runtime

/-!
# Signals

A signal becomes pending in its process and is taken on the way back to U mode.
A handler runs on a frame that is built on the user's own stack; `rt_sigreturn`
reads that frame back.
-/

namespace Pyremu.Sittim

open ByteMem (Mem readLe writeLe)

/-! ## User memory -/

def readU64 (m : Mem) (addr : Word) : Word := readLe m addr.toNat 8

def writeU64 (m : Mem) (addr v : Word) : Mem := writeLe m addr.toNat 8 v

/-- `ptr::write_bytes` with zero. -/
def zeroBytes (m : Mem) (addr n : Nat) : Mem := fun i => if addr ≤ i ∧ i < addr + n then 0 else m i

/-- Consecutive words from `addr` on. -/
def writeWords (m : Mem) (addr : Word) : List Word → Mem
  | [] => m
  | w :: ws => writeWords (writeU64 m addr w) (addr + 8) ws

/-- The 264 bytes of a register snapshot. -/
def readGprs (m : Mem) (addr : Word) : TrapGprs :=
  ⟨fun r => readU64 m (addr + 8 * BitVec.ofNat 64 r), readU64 m (addr + 256)⟩

def writeGprs (m : Mem) (addr : Word) (g : TrapGprs) : Mem :=
  writeWords m addr (List.ofFn g.regs ++ [g.spBeforeTrap])

/-! ## Dispositions -/

def SIG_DFL : Word := 0
def SIG_IGN : Word := 1
def SIGBUS : Fin 32 := 7
def SIGALRM : Fin 32 := 14
def SIGNAL_EXIT_OFFSET : Word := 128

inductive Disposition where
  | ignore
  | terminate
  | handle (handler : Word)
  deriving DecidableEq, Repr

/-- `default_action`: the signals of job control and the ignorable ones do nothing. -/
def defaultAction (sig : Fin 32) : Disposition :=
  if sig = 17 ∨ sig = 18 ∨ sig = 23 ∨ sig = 28 then .ignore
  else if 19 ≤ sig.val ∧ sig.val ≤ 22 then .ignore
  else .terminate

namespace SigState

variable (st : SigState)

def disposition (sig : Fin 32) : Disposition :=
  if st.handler sig = SIG_IGN then .ignore
  else if st.handler sig = SIG_DFL then defaultAction sig
  else .handle (st.handler sig)

def inheritedFrom : SigState := { st with pending := 0 }

def clearPending : SigState := { st with pending := 0 }

def post (sig : Fin 32) : SigState := { st with pending := st.pending ||| BitVec.twoPow 64 sig }

/-- `take_pending`: the lowest signal that is pending and not blocked. Only numbers below `NSIG`
are ever posted. -/
def takePending : Option (SigState × Fin 32) :=
  ((List.finRange 32).find? fun sig : Fin 32 =>
      (st.pending &&& ~~~st.blocked).getLsbD sig).map fun sig : Fin 32 =>
    ({ st with pending := st.pending &&& ~~~BitVec.twoPow 64 sig }, sig)

end SigState

namespace Runtime

variable (s : Runtime)

def currentSig : SigState := (s.procs s.currentProc).sig

def setCurrentSig (st : SigState) : Runtime := s.setProc s.currentProc fun p => { p with sig := st }

theorem setCurrentSig_currentSig (st : SigState) : (s.setCurrentSig st).currentSig = st := by
  simp only [currentSig, setCurrentSig, setProc, Function.update_self]

/-! ## `rt_sigaction` and `rt_sigprocmask` -/

/-- `rt_sigaction`: only the handler of a `k_sigaction` is read and written. -/
def sigaction (sig newAction oldAction : Word) : Runtime × Word :=
  if sig = 0 ∨ 32 ≤ sig.toNat then (s, EINVAL)
  else
    let n := Fin.ofNat 32 sig.toNat
    let st := s.currentSig
    let s :=
      if oldAction = 0 then s
      else { s with mem := writeU64 (zeroBytes s.mem oldAction.toNat 32) oldAction (st.handler n) }
    if newAction = 0 then (s, 0)
    else
      let handler := readU64 s.mem newAction
      let pending :=
        if handler = SIG_DFL ∨ handler = SIG_IGN then st.pending &&& ~~~BitVec.twoPow 64 n
        else st.pending
      (s.setCurrentSig
        { st with handler := Function.update st.handler n handler, pending := pending }, 0)

/-- `rt_sigprocmask`: signals 0, 9 and 19 cannot be blocked. -/
def sigprocmask (how set oldset sigsetsize : Word) : Runtime × Word :=
  if 2 < how.toNat then (s, EINVAL)
  else
    let n := min sigsetsize.toNat 8
    let st := s.currentSig
    let s :=
      if oldset ≠ 0 ∧ 0 < n then
        { s with mem := writeU64 (zeroBytes s.mem oldset.toNat n) oldset st.blocked }
      else s
    if set ≠ 0 ∧ 0 < n then
      let word := readLe s.mem set.toNat n &&&
        ~~~(BitVec.twoPow 64 0 ||| BitVec.twoPow 64 9 ||| BitVec.twoPow 64 19)
      let blocked :=
        if how = 0 then st.blocked ||| word
        else if how = 1 then st.blocked &&& ~~~word
        else word
      (s.setCurrentSig { st with blocked := blocked }, 0)
    else (s, 0)

/-! ## Signal frames -/

/-- `li a7, 139; ecall`, the first two instructions of a frame. -/
def SIGNAL_RESTORE_CODE : Word := 0x0000007308b00893

/-- `build_frame`: offsets 8, 16 and 24 hold `sepc`, `sstatus` and the mask, offset 32 the
registers, 296 the stack pointer, 304 the `siginfo` and 432 an empty `ucontext`. -/
def buildFrame (sig : Fin 32) (handler sepc : Word) : Runtime × Word :=
  let g := s.gprs
  let usp := g.spBeforeTrap
  let frame := (usp - 704) &&& ~~~(15 : Word)
  let st := s.currentSig
  let m := writeU64 s.mem frame SIGNAL_RESTORE_CODE
  let m := writeU64 m (frame + 8) sepc
  let m := writeU64 m (frame + 16) s.sstatus
  let m := writeU64 m (frame + 24) st.blocked
  let m := writeGprs m (frame + 32) g
  let m := writeU64 m (frame + 296) usp
  let m := zeroBytes m (frame + 304).toNat 128
  let m := writeLe m (frame + 304).toNat 4 (BitVec.ofNat 64 sig)
  let m := writeLe m (frame + 312).toNat 4 0
  let m := zeroBytes m (frame + 432).toNat 256
  let s := { s with mem := m }.setCurrentSig { st with blocked := st.blocked ||| BitVec.twoPow 64 sig }
  let s := s.setGprs ⟨fun r =>
      if r = 1 ∨ r = 2 then frame
      else if r = 10 then BitVec.ofNat 64 sig
      else if r = 11 then frame + 304
      else if r = 12 then frame + 432
      else g.regs r, frame⟩
  (s, handler)

/-- `restore_frame`: everything comes from the memory at the user's stack pointer. -/
def restoreFrame : Runtime × Word :=
  let frame := s.gprs.spBeforeTrap
  let g := { readGprs s.mem (frame + 32) with spBeforeTrap := readU64 s.mem (frame + 296) }
  let r := s.setGprs g
  let r := r.writeSstatus (readU64 s.mem (frame + 16))
  let r := r.setCurrentSig { s.currentSig with blocked := readU64 s.mem (frame + 24) }
  (r, readU64 s.mem (frame + 8))

/-- `sigreturn`. -/
def sigreturn : Runtime × Word :=
  let r := s.restoreFrame
  ({ r.1 with sigreturnSepc := some r.2 }, r.1.gprs.regs 10)

end Runtime

end Pyremu.Sittim
