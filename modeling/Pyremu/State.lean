import Mathlib.Algebra.Order.Ring.Nat
import Mathlib.Tactic.Common

/-!
# State of one hart

The records that cross the Python boundary, field by field, and the constants
of `state.rs`. Flags that the engine only compares with zero are `Bool`.
Registers are indexed by the five decoded bits, so no index is out of range.
-/

namespace Pyremu

abbrev Word := BitVec 64

/-- `u64::MAX`, returned by a handler that leaves the current round. -/
def exitSentinel : Word := BitVec.allOnes 64

/-- Build switches of `configs_gen.rs`, and the base of the IMSIC window. -/
structure Features where
  aia : Bool
  noTlb : Bool
  hasSemihosting : Bool
  imsicMBase : Word
  deriving DecidableEq, Repr

/-- Privilege modes, with the encodings of `riscv_mode` given by `rank`. -/
inductive Mode where
  | U | S | H | M | D
  deriving DecidableEq, Repr

namespace Mode

def rank : Mode → Nat
  | U => 0
  | S => 1
  | H => 2
  | M => 3
  | D => 8

end Mode

/-- Why a round of execution ends. -/
inductive ExitReason where
  | normal | trap | mmio | ecall | ebreak | wfiWait | notMainram | breakpoint | timeout | rxWait
  deriving DecidableEq, Repr

structure TlbEntry where
  vpn : Word
  ppn : Word
  perm : BitVec 8
  level : BitVec 8
  valid : Bool
  mdid : Word
  dirty : Bool
  accessed : Bool
  asid : BitVec 16
  deriving DecidableEq, Repr

def TlbEntry.empty : TlbEntry :=
  ⟨0, 0, 0, 0, false, 0, false, false, 0⟩

/-- The entry array of one TLB; slot numbers stay below `tlbEntries`. -/
abbrev Tlb := Nat → TlbEntry

def tlbEntries : Nat := 256

/-- One interrupt file: 64 words each of pending and enable bits. -/
structure ImsicFile where
  eip : Nat → BitVec 32
  eie : Nat → BitVec 32
  eidelivery : BitVec 8
  eithreshold : BitVec 8
  select : BitVec 32
  present : Bool
  eipExtAny : Bool

def ImsicFile.empty : ImsicFile :=
  ⟨fun _ => 0, fun _ => 0, 0, 0, 0, true, false⟩

/-- Extension switches of the platform, the ones the engine reads. -/
structure IsaExts where
  isI : Bool
  isM : Bool
  isA : Bool
  isF : Bool
  isD : Bool
  isC : Bool
  isB : Bool
  isH : Bool
  isV : Bool
  isZicsr : Bool
  isZifencei : Bool
  isZbb : Bool
  isZba : Bool
  isZbs : Bool
  isSstc : Bool
  deriving DecidableEq, Repr

def IsaExts.allEnabled : IsaExts :=
  ⟨true, true, true, true, true, true, true, true, true, true, true, true, true, true, true⟩

/-- One delivered trap: the value written to `xcause`, `xtval` and `xepc`, and
the level whose registers received them. -/
structure TrapRecord where
  code : Word
  tval : Word
  epc : Word
  level : Mode
  deriving DecidableEq, Repr

/-- Register state of one hart. `traps` is a ghost log that only the trap
delivery functions extend; no modelled function reads it. -/
structure HartState where
  gprs : BitVec 5 → Word
  mstatus : Word
  mtvec : Word
  stvec : Word
  mepc : Word
  sepc : Word
  mcause : Word
  scause : Word
  mtval : Word
  stval : Word
  satp : Word
  mie : Word
  mip : Word
  medeleg : Word
  mideleg : Word
  pc : Word
  reservationAddr : Word
  reservationValue : Word
  reservationValid : Bool
  mode : Mode
  mmuMode : BitVec 8
  waiting : Bool
  wfiWoken : Bool
  mdid : Word
  pmpsplit : BitVec 8
  itlb : Tlb
  dtlb : Tlb
  mscratch : Word
  sscratch : Word
  mhartid : Word
  mcounteren : Word
  scounteren : Word
  stimecmp : Word
  totalInstrs : Word
  fprs : BitVec 5 → Word
  fcsr : BitVec 32
  imsicM : ImsicFile
  imsicS : ImsicFile
  stipDeadline : Word
  mtipDeadline : Word
  itlbHits : Word
  itlbMisses : Word
  dtlbHits : Word
  dtlbMisses : Word
  isaExts : IsaExts
  traps : List TrapRecord

/-- Everything zero, as the engine's own tests start from, in machine mode. -/
def HartState.zeroed : HartState where
  gprs := fun _ => 0
  mstatus := 0
  mtvec := 0
  stvec := 0
  mepc := 0
  sepc := 0
  mcause := 0
  scause := 0
  mtval := 0
  stval := 0
  satp := 0
  mie := 0
  mip := 0
  medeleg := 0
  mideleg := 0
  pc := 0
  reservationAddr := 0
  reservationValue := 0
  reservationValid := false
  mode := .M
  mmuMode := 0
  waiting := false
  wfiWoken := false
  mdid := 0
  pmpsplit := 0
  itlb := fun _ => .empty
  dtlb := fun _ => .empty
  mscratch := 0
  sscratch := 0
  mhartid := 0
  mcounteren := 0
  scounteren := 0
  stimecmp := 0
  totalInstrs := 0
  fprs := fun _ => 0
  fcsr := 0
  imsicM := .empty
  imsicS := .empty
  stipDeadline := 0
  mtipDeadline := 0
  itlbHits := 0
  itlbMisses := 0
  dtlbHits := 0
  dtlbMisses := 0
  isaExts := .allEnabled
  traps := []

/-- Reads of `x0` give zero. -/
def readGpr (s : HartState) (rs : BitVec 5) : Word := if rs = 0 then 0 else s.gprs rs

/-- Writes to `x0` are dropped. -/
def writeGpr (s : HartState) (rd : BitVec 5) (v : Word) : HartState :=
  if rd = 0 then s else { s with gprs := Function.update s.gprs rd v }

end Pyremu
