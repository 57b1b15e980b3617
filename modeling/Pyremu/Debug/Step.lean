import Pyremu.PmpPython
import Pyremu.PyInterrupt
import Pyremu.TlbPython

/-!
# Single steps and rollback

`step_one` saves a snapshot, lets the hart execute with every store of RAM
recorded, and `rollback` puts the snapshot and the recorded bytes back. An
instruction is what its handler does to the hart in turn: the accesses it
translates, which come first, and then the calls that change the hart. The bus
is a flat memory of physical addresses.
-/

namespace Pyremu.Debug

open ByteMem

/-! ## PMP with its arrays -/

/-- What does not change while the platform runs. -/
structure PyPlatform where
  nativeMmu : MmuPy.NativeMmu
  nativePmp : Bool
  pmpEntries : Nat
  entries_le : pmpEntries ≤ 64
  isDeviceAddr : Word → Bool

/-- Names that start with `pmpcfg` or `pmpaddr`. -/
def isPmpAddr (a : BitVec 12) : Bool := decide (0x3A0 ≤ a ∧ a ≤ 0x3EF)

def pmpRegs (p : PyPlatform) (csrs : BitVec 12 → Word) : PmpPy where
  cfgReg k := if k < 16 ∧ k % 2 = 0 then some (csrs (BitVec.ofNat 12 (0x3A0 + k))) else none
  addrReg i := if i < 64 then some (csrs (BitVec.ofNat 12 (0x3B0 + i))) else none
  numEntries := p.pmpEntries
  num_le := p.entries_le

/-- `Pmp.check`. The arrays are dirty when there is no `cache`. -/
def pmpAllows (p : PyPlatform) (csrs : BitVec 12 → Word) (cache : Option PmpCtx) (mdid pmpsplit : Word)
    (info : PmpAccessInfo) : Bool :=
  if info.mode = .M ∧ !mprv info.mstatus then true
  else if mdid ≠ 0 ∧ 0 < pmpsplit ∧ p.pmpEntries ≤ pmpsplit.toNat then false
  else if p.nativePmp then
    pmpCheck (cache.getD (pmpRegs p csrs).rebuildCache) info.pa info.size info.isWrite info.isExecute info.mode
      info.mstatus (pmpsplit.setWidth 8) mdid
  else (pmpRegs p csrs).checkPy { info with pmpsplit := pmpsplit.setWidth 8, mdid := mdid }

/-- What a PMP check uses of a hart other than the one under the debugger. -/
structure PmpSide where
  csrs : BitVec 12 → Word
  cache : Option PmpCtx
  mdidVal : Word
  pmpsplitVal : Word

namespace PmpSide

def allows (p : PyPlatform) (s : PmpSide) (info : PmpAccessInfo) : Bool :=
  pmpAllows p s.csrs s.cache s.mdidVal s.pmpsplitVal info

/-- What `_write_pmp_csr` does to every other hart. -/
def write (s : PmpSide) (a : BitVec 12) (v : Word) : PmpSide :=
  { s with csrs := Function.update s.csrs a v, cache := none }

end PmpSide

/-! ## The machine -/

/-- The bytes of a store, from address `a` on. -/
def pokeBytes (m : Mem) (a : Nat) (data : List (BitVec 8)) : Mem :=
  fun i => if a ≤ i then (data[i - a]?).getD (m i) else m i

def peekBytes (m : Mem) (a size : Nat) : List (BitVec 8) := (List.range size).map fun k => m (a + k)

structure MemoryChange where
  addr : Word
  old : List (BitVec 8)

abbrev satpCsr : PyCsr := .other 0x180

/-- The hart under the debugger, with the parts of the platform that its steps reach. -/
structure PyMachine (n : Nat) where
  board : PyBoard n
  halted : Bool
  gprs : BitVec 5 → Word
  fprBits : BitVec 5 → Word
  reservationAddr : Word
  reservationValue : Word
  mmuMode : Word
  mdidVal : Word
  pmpsplitVal : Word
  totalInstrs : Nat
  itlb : TlbPy
  dtlb : TlbPy
  pmpCache : Option PmpCtx
  others : Fin n → PmpSide
  mem : Mem
  /-- What the tracker has recorded in this step. -/
  changes : List MemoryChange

/-- A load or store up to the physical address: `translate_addr`, and the PMP checks of the walk or the
access. `pmpChecked` is false when none of these gets as far as the arrays. -/
structure Access where
  va : Word
  isWrite : Bool
  pmpChecked : Bool

/-- `satp` and the PMP registers, which have writers of their own. -/
def ownCsr (a : BitVec 12) : Bool := decide (a = 0x180) || isPmpAddr a

/-- CSRs that are written with `csrs[name].val = v`. -/
def Plain (r : PyCsr) : Prop := ∀ a, r = .other a → ownCsr a = false

/-- The calls by which handlers change the hart. -/
inductive HartOp where
  | setPc (v : Word)
  | setGpr (rd : BitVec 5) (v : Word)
  | setFpr (rd : BitVec 5) (v : Word)
  | setCsr (r : PyCsr) (v : Word) (plain : Plain r)
  | csrRead (r : PyCsr)
  | csrWrite (r : PyCsr) (v : Word)
  /-- The end of `mem_write`, of RAM. -/
  | memWrite (pa : Word) (data : List (BitVec 8))
  | setReservation (addr v : Word)
  | clearReservation
  | sfenceVma (rs1 : Option Word)
  | mfenceDid
  | exception (excCode : Nat) (tval : Word)
  | mret
  | sret
  | wfi (instr : Word)

/-- What a handler does. Nothing is translated after the hart has been changed. -/
structure Instr where
  accesses : List Access
  ops : List HartOp

namespace PyMachine

variable {n : Nat} (p : PyPlatform) (m : PyMachine n)

def hart : PyHart := m.board.hart

def setHart (h : PyHart) : PyMachine n := { m with board := m.board.withHart h }

/-- The CSRs that are plain stores for the interrupt check. -/
def otherCsrs : BitVec 12 → Word := fun a => m.hart.csrs (.other a)

def satp : Word := m.hart.csrs satpCsr

/-- A PMP check of the hart; `mdid` and `pmpsplit` are the cached views. -/
def allows (info : PmpAccessInfo) : Bool := pmpAllows p m.otherCsrs m.pmpCache m.mdidVal m.pmpsplitVal info

def env : MmuEnv where
  nativeMmu := p.nativeMmu
  pmpCheck mode mstatus a := m.allows p ⟨a, 8, mode, mstatus, false, false, 0, 0⟩
  isDeviceAddr := p.isDeviceAddr

/-- What a translation uses of the hart. -/
def mmu : MmuHart := ⟨m.satp, m.mmuMode, m.hart.mode, m.hart.csrs .mstatus, m.mdidVal, m.dtlb, m.mem⟩

def access (a : Access) : PyMachine n :=
  { m with
    dtlb := (m.mmu.translateAddr (m.env p) a.va a.isWrite false).2.dtlb
    pmpCache :=
      if a.pmpChecked && p.nativePmp then some (m.pmpCache.getD (pmpRegs p m.otherCsrs).rebuildCache)
      else m.pmpCache }

/-! ### Reservation and traps -/

def clearReservation : PyMachine n :=
  { m.setHart { m.hart with reservationValid := false } with reservationAddr := 0, reservationValue := 0 }

def setReservation (addr v : Word) : PyMachine n :=
  { m.setHart { m.hart with reservationValid := true } with reservationAddr := addr, reservationValue := v }

/-- `deliver_trap` clears the reservation. -/
def trapped (b : PyBoard n) : PyMachine n := { m with board := b, reservationAddr := 0, reservationValue := 0 }

def deliverTrap (excCode : Nat) (tval : Word) : PyMachine n := m.trapped (m.board.deliverTrap excCode tval false)

def trapMret : PyMachine n :=
  if m.hart.mode ≠ .M then m.trapped m.board.trapMret else { m with board := m.board.trapMret }

def trapSret : PyMachine n :=
  if m.hart.mode = .U then m.trapped m.board.trapSret else { m with board := m.board.trapSret }

def handleWfi (instr : Word) : PyMachine n :=
  if m.hart.mode ≠ .M ∧ (m.hart.csrs .mstatus).getLsbD 21 = true then m.deliverTrap 2 instr
  else if m.hart.wfiWoken then m.setHart { m.hart with wfiWoken := false }
  else if m.hart.csrs .mip &&& m.hart.csrs .mie ≠ 0 then m
  else m.setHart { m.hart with waiting := true, wfiWoken := false }

def checkPendingInterrupts : PyMachine n :=
  match m.board.checkPendingInterrupts with
  | (true, b) => m.trapped b
  | (false, b) => { m with board := b }

/-! ### CSR writes -/

/-- The setter of `satp_val`. -/
def writeSatp (v : Word) : PyMachine n :=
  let v := v &&& ~~~((0xFFFF : Word) <<< 44)
  { m.setHart (m.hart.setCsr satpCsr v) with
    itlb := m.itlb.flushAll
    dtlb := m.dtlb.flushAll
    mmuMode := v >>> 60 }

def writePmpCsr (a : BitVec 12) (v : Word) : PyMachine n :=
  { m.setHart (m.hart.csrWriteRaw (.other a) v) with
    pmpCache := none
    others := fun j => if j = m.board.id then m.others j else (m.others j).write a v }

def writeCsr (r : PyCsr) (v : Word) : PyMachine n :=
  match r with
  | .other a =>
    if a = 0x180 then m.writeSatp v
    else if a = 0x5C0 then { m.setHart (m.hart.setCsr (.other a) v) with mdidVal := v }
    else if a = 0x5C1 then { m.setHart (m.hart.setCsr (.other a) v) with pmpsplitVal := v }
    else if isPmpAddr a then m.writePmpCsr a v
    else { m with board := m.board.writeCsr (.other a) v }
  | r => { m with board := m.board.writeCsr r v }

/-! ### Instructions -/

/-- `mem_write_phy` with the tracker in front of it. -/
def memWrite (pa : Word) (data : List (BitVec 8)) : PyMachine n :=
  { m.clearReservation with
    mem := pokeBytes m.mem pa.toNat data
    changes := m.changes ++ [⟨pa, peekBytes m.mem pa.toNat data.length⟩] }

def sfenceVma (rs1 : Option Word) : PyMachine n :=
  match rs1 with
  | none => { m with itlb := m.itlb.flushAll, dtlb := m.dtlb.flushAll }
  | some va => { m with itlb := m.itlb.flush (va >>> 12), dtlb := m.dtlb.flush (va >>> 12) }

def mfenceDid : PyMachine n :=
  { m with itlb := m.itlb.flushByMdid m.mdidVal, dtlb := m.dtlb.flushByMdid m.mdidVal }

def op (m : PyMachine n) : HartOp → PyMachine n
  | .setPc v => m.setHart { m.hart with pc := v }
  | .setGpr rd v => { m with gprs := if rd = 0 then m.gprs else Function.update m.gprs rd v }
  | .setFpr rd v => { m with fprBits := Function.update m.fprBits rd v }
  | .setCsr r v _ => m.setHart (m.hart.setCsr r v)
  | .csrRead r => { m with board := (m.board.readCsr r).2 }
  | .csrWrite r v => m.writeCsr r v
  | .memWrite pa data => m.memWrite pa data
  | .setReservation addr v => m.setReservation addr v
  | .clearReservation => m.clearReservation
  | .sfenceVma rs1 => m.sfenceVma rs1
  | .mfenceDid => m.mfenceDid
  | .exception excCode tval => m.deliverTrap excCode tval
  | .mret => m.trapMret
  | .sret => m.trapSret
  | .wfi instr => m.handleWfi instr

/-- `exec_instr` under a new tracker, and the check for interrupts behind it. -/
def exec (i : Instr) : PyMachine n :=
  (i.ops.foldl op (i.accesses.foldl (access p) { m with changes := [] })).checkPendingInterrupts

/-- The hart's own part of `sync_counters`. -/
def syncCounters : PyMachine n :=
  let cycle := BitVec.ofNat 64 (m.totalInstrs * 20)
  let instrs := BitVec.ofNat 64 m.totalInstrs
  m.setHart (((((m.hart.csrWriteRaw (.other 0xB00) cycle).csrWriteRaw (.other 0xC00) cycle).csrWriteRaw
    (.other 0xB02) instrs).csrWriteRaw (.other 0xC02) instrs).csrWriteRaw .time m.board.clint.mtime)

end PyMachine

/-! ### Handlers -/

section Handlers

variable {n : Nat} (m : PyMachine n)

/-- `_sys_csr` of a CSR that the mode may access, and the pc behind it. -/
def sysCsr (r : PyCsr) (rd : BitVec 5) (isWrite : Bool) (calcNew : Word → Word) : Instr where
  accesses := []
  ops :=
    let old := (m.board.readCsr r).1
    [.csrRead r, .setGpr rd old] ++ (if isWrite then [.csrWrite r (calcNew old)] else []) ++ [.setPc (m.hart.pc + 4)]

/-- `handle_st` at an address that maps to `pa`, within a page. -/
def handleSt (va pa : Word) (data : List (BitVec 8)) : Instr where
  accesses := [⟨va, true, true⟩]
  ops := [.memWrite pa data, .setPc (m.hart.pc + 4)]

end Handlers

/-! ## The debugger -/

structure HartSnapshot where
  pc : Word
  gprVals : BitVec 5 → Word
  csrVals : PyCsr → Word
  mode : Mode
  reservationValid : Bool
  reservationAddr : Word

structure Stepper (n : Nat) where
  machine : PyMachine n
  snapshot : Option HartSnapshot
  memChanges : List MemoryChange

/-- What `step_one` finds at the pc. Its fetch is a query that neither uses nor fills the TLB. -/
inductive Fetched where
  | fault
  | breakpoint
  | instr (i : Instr)

section Debugger

variable {n : Nat} (p : PyPlatform)

def saveSnapshot (m : PyMachine n) : HartSnapshot where
  pc := m.hart.pc
  gprVals := m.gprs
  csrVals := m.hart.csrs
  mode := m.hart.mode
  reservationValid := m.hart.reservationValid
  reservationAddr := m.reservationAddr

/-- The loop over the CSRs. `satp` goes through its setter when it has changed, the others are stored. -/
def restoreCsrs (m : PyMachine n) (csrVals : PyCsr → Word) : PyMachine n :=
  let m := if m.satp ≠ csrVals satpCsr then m.writeSatp (csrVals satpCsr) else m
  m.setHart { m.hart with csrs := fun r => if r = satpCsr then m.satp else csrVals r }

def restoreSnapshot (m : PyMachine n) (snap : HartSnapshot) : PyMachine n :=
  let m := { m.setHart { m.hart with pc := snap.pc } with gprs := snap.gprVals }
  let m := restoreCsrs m snap.csrVals
  let m := m.setHart { m.hart with mode := snap.mode }
  if snap.reservationValid then m.setReservation snap.reservationAddr 0 else m.clearReservation

def stepOne (s : Stepper n) (f : Fetched) : Stepper n :=
  let m := s.machine
  if m.halted then s
  else if m.hart.waiting then { s with machine := m.checkPendingInterrupts }
  else
    match f with
    | .fault => { s with machine := m.deliverTrap 12 m.hart.pc }
    | .breakpoint => s
    | .instr i =>
      let snap := saveSnapshot m
      let m := m.exec p i
      let m := { m with totalInstrs := m.totalInstrs + 1 }.syncCounters
      { machine := m, snapshot := some snap, memChanges := m.changes }

/-- The recorded bytes go back, the last store first. -/
def undoWrites (changes : List MemoryChange) (mem : Mem) : Mem :=
  changes.reverse.foldl (fun mem c => pokeBytes mem c.addr.toNat c.old) mem

def rollback (s : Stepper n) : Stepper n :=
  match s.snapshot with
  | none => s
  | some snap =>
    let m := restoreSnapshot { s.machine with mem := undoWrites s.memChanges s.machine.mem } snap
    { machine := { m with totalInstrs := m.totalInstrs - 1 }, snapshot := none, memChanges := [] }

end Debugger

end Pyremu.Debug
