import Mathlib.Data.List.FinRange
import Mathlib.Data.List.OfFn
import Pyremu.Decode
import Pyremu.State

/-!
# Breakpoints of the debugger

The two checkers, `_check_breakpoints` before a single step and
`_check_multi_hart_bp` after all harts have run. What the debugger reads of a
hart is a parameter. Reading a CSR by name goes through `read_csr`, which may
change the hart, since a read of `mtopi` takes the interrupt.
-/

namespace Pyremu.Debug

/-- What the debugger looks at in a hart. -/
structure HartOps (H : Type) where
  pc : H → Word
  halted : H → Bool
  waiting : H → Bool
  /-- The MMU is on and the hart is below M mode. -/
  translating : H → Bool
  translateAddr : H → Word → Option Word
  readGpr : H → BitVec 5 → Word
  readCsr : H → BitVec 12 → Int × H

/-! ## Conditions -/

inductive CompareOp where
  | eq | ne | lt | gt | le | ge
  deriving DecidableEq, Repr

def CompareOp.compare : CompareOp → Int → Int → Bool
  | .eq, a, b => decide (a = b)
  | .ne, a, b => decide (a ≠ b)
  | .lt, a, b => decide (a < b)
  | .gt, a, b => decide (b < a)
  | .le, a, b => decide (a ≤ b)
  | .ge, a, b => decide (b ≤ a)

/-- The register a condition names, `none` for a name the tables do not have. -/
inductive CondReg where
  | reg (idx : Option (BitVec 5))
  | csr (addr : Option (BitVec 12))
  deriving DecidableEq, Repr

structure Cond where
  reg : CondReg
  op : CompareOp
  val : Int
  deriving DecidableEq, Repr

inductive BpKind where
  | addr | instr | opcode | cond
  deriving DecidableEq, Repr

/-- Equality is that of the fields. The checkers tell equal breakpoints apart by their place in the
list, where the source asks for `id(bp)`. -/
structure Breakpoint where
  kind : BpKind
  value : Word
  desc : String
  cond : Option Cond
  deriving DecidableEq, Repr

/-- The breakpoint of `bp if`. -/
def condBp (c : Cond) (desc : String) : Breakpoint := ⟨.cond, 0, desc, some c⟩

section Conditions

variable {H : Type} (o : HartOps H)

def readCond (s : H) (c : Cond) : Int × H :=
  match c.reg with
  | .reg none => (0, s)
  | .reg (some r) => ((o.readGpr s r).toNat, s)
  | .csr none => (0, s)
  | .csr (some a) => o.readCsr s a

def evalBpCondition (s : H) (bp : Breakpoint) : Bool × H :=
  match bp.cond with
  | none => (true, s)
  | some c =>
    let r := readCond o s c
    (c.op.compare r.1 c.val, r.2)

/-- The prefilter. `prevCsr` is the CSR number of the last instruction that was checked. -/
def instrMayAffectCond (instr : BitVec 32) (prevCsr : Option (BitVec 12)) (bp : Breakpoint) : Bool :=
  match bp.cond with
  | none => true
  | some c =>
    let f := decodeFields instr
    match c.reg with
    | .reg r => if f.rd = 0 then false else decide (r = some f.rd)
    | .csr none => true
    | .csr (some a) => decide (f.opcode = 0x73 ∧ f.func12 = a ∨ prevCsr = some a)

def bpMatchPc (s : H) (pc value : Word) : Bool :=
  decide (pc = value) || (o.translating s && decide (o.translateAddr s pc = some value))

end Conditions

/-! ## The checkers -/

inductive BpKey where
  | addr (pc : Word)
  | value (kind : BpKind) (value : Word)
  | object (kind : BpKind) (idx : Nat)
  deriving DecidableEq, Repr

structure Report (n : Nat) where
  hart : Fin n
  idx : Nat
  bp : Breakpoint
  deriving DecidableEq, Repr

/-- The harts and what the debugger keeps. `reports` is a ghost log. -/
structure Debugger (H : Type) (n : Nat) where
  harts : Fin n → H
  selected : Fin n
  breakpoints : List Breakpoint
  hasNonAddrBps : Bool
  hits : List BpKey
  prevCsr : Option (BitVec 12)
  bpAddrs : List Word
  reports : List (Report n)

/-- What becomes of all harts in the turn of one. `executes` is false for a hart that only waits or
takes a trap on its fetch. -/
structure Move (H : Type) (n : Nat) where
  hart : Fin n
  executes : Bool
  after : Fin n → H

/-- `step` of the emulator gives each hart one turn at most, and then sets the counters. -/
structure Round (H : Type) (n : Nat) where
  moves : List (Move H n)
  once : (moves.map (·.hart)).Nodup
  synced : Fin n → H

/-- A hart, a breakpoint and the place of the latter. -/
abbrev Candidate (n : Nat) := Fin n × Breakpoint × Nat

section Checkers

variable {H : Type} {n : Nat} (o : HartOps H)

/-- The report shows the register once more, as the selected hart has it. -/
def reportBpHit (d : Debugger H n) (x : Candidate n) : Debugger H n :=
  let harts :=
    match x.2.1.cond with
    | none => d.harts
    | some c => Function.update d.harts d.selected (readCond o (d.harts d.selected) c).2
  { d with harts := harts, reports := d.reports ++ [⟨x.1, x.2.2, x.2.1⟩] }

/-- Try the candidates in turn. The first that hits, holds and has not been seen is reported. -/
def checkEach (hit : H → Candidate n → Bool) (key : H → Candidate n → BpKey) :
    List (Candidate n) → Debugger H n → Bool × Debugger H n
  | [], d => (false, d)
  | x :: xs, d =>
    if hit (d.harts x.1) x then
      let k := key (d.harts x.1) x
      let r := evalBpCondition o (d.harts x.1) x.2.1
      let d := { d with harts := Function.update d.harts x.1 r.2 }
      if r.1 then
        if k ∈ d.hits then checkEach hit key xs d
        else (true, reportBpHit o { d with hits := d.hits ++ [k] } x)
      else checkEach hit key xs d
    else checkEach hit key xs d

def hitBefore (instr : BitVec 32) (prevCsr : Option (BitVec 12)) (s : H) (x : Candidate n) : Bool :=
  let bp := x.2.1
  let f := decodeFields instr
  match bp.kind with
  | .cond => instrMayAffectCond instr prevCsr bp
  | .addr => bpMatchPc o s (o.pc s) bp.value
  | .instr => decide (f.opcode = 0x73 ∧ f.func3 = 0 ∧ f.func12.setWidth 64 = bp.value)
  | .opcode => !f.isCompressed && decide (f.opcode.setWidth 64 = bp.value)

def keyBefore (s : H) (x : Candidate n) : BpKey :=
  match x.2.1.kind with
  | .addr => .addr (o.pc s)
  | kind => .object kind x.2.2

/-- `_check_breakpoints` for hart `i`, whose next instruction is `instr`. -/
def checkBreakpoints (d : Debugger H n) (i : Fin n) (instr : BitVec 32) : Bool × Debugger H n :=
  if d.breakpoints.isEmpty then (false, d)
  else
    match checkEach o (hitBefore o instr d.prevCsr) (keyBefore o)
      (d.breakpoints.zipIdx.map fun x => (i, x)) d with
    | (true, d) => (true, d)
    | (false, d) =>
      let f := decodeFields instr
      (false, { d with prevCsr := if f.opcode = 0x73 then some f.func12 else none })

/-- `readU32` is the bus, which sees physical addresses. -/
def hitAfter (readU32 : Word → Option (BitVec 32)) (s : H) (x : Candidate n) : Bool :=
  let bp := x.2.1
  match bp.kind with
  | .addr => bpMatchPc o s (o.pc s) bp.value
  | .cond => true
  | .instr =>
    match readU32 (o.pc s) with
    | none => false
    | some w =>
      let f := decodeFields w
      decide (f.opcode = 0x73 ∧ f.func3 = 0 ∧ f.func12.setWidth 64 = bp.value)
  | .opcode =>
    match readU32 (o.pc s) with
    | none => false
    | some w =>
      let f := decodeFields w
      !f.isCompressed && decide (f.opcode.setWidth 64 = bp.value)

def keyAfter (s : H) (x : Candidate n) : BpKey :=
  match x.2.1.kind with
  | .addr => .addr (o.pc s)
  | kind => .value kind x.2.1.value

/-- Every breakpoint at every hart, hart by hart. -/
def candidates (n : Nat) (bps : List Breakpoint) : List (Candidate n) :=
  (List.finRange n).flatMap fun i => bps.zipIdx.map fun x => (i, x)

/-- `_check_multi_hart_bp`. -/
def checkMultiHartBp (readU32 : Word → Option (BitVec 32)) (d : Debugger H n) (includeAddr : Bool) :
    Bool × Debugger H n :=
  if !d.hasNonAddrBps && !includeAddr then (false, d)
  else
    checkEach o (hitAfter o readU32) (keyAfter o)
      ((candidates n d.breakpoints).filter fun x =>
        !(x.2.1.kind == .addr && x.2.1.cond.isNone && !includeAddr)) d

/-- `_refresh_bp_cache`. -/
def hasNonAddr (bps : List Breakpoint) : Bool := bps.any fun bp => bp.kind != .addr || bp.cond.isSome

theorem mem_candidates {bps : List Breakpoint} {x : Candidate n} : x ∈ candidates n bps ↔ bps[x.2.2]? = some x.2.1 := by
  obtain ⟨i, bp, k⟩ := x
  simp [candidates, List.mem_zipIdx_iff_getElem?]

end Checkers

/-! ## Checks that leave the harts alone -/

section Pure

variable {H : Type} {n : Nat} {o : HartOps H} {hit : H → Candidate n → Bool} {key : H → Candidate n → BpKey}

/-- Whether the condition of a breakpoint holds for a hart. -/
def holds (o : HartOps H) (s : H) (bp : Breakpoint) : Bool := (evalBpCondition o s bp).1

/-- No condition names a CSR whose read changes the hart. -/
def PureReads (o : HartOps H) (bps : List Breakpoint) : Prop :=
  ∀ bp ∈ bps, ∀ c, bp.cond = some c → ∀ s, (readCond o s c).2 = s

/-- The candidate that a check stops at. -/
def found (o : HartOps H) (hit : H → Candidate n → Bool) (key : H → Candidate n → BpKey)
    (d : Debugger H n) (xs : List (Candidate n)) : Option (Candidate n) :=
  xs.find? fun x => hit (d.harts x.1) x && (holds o (d.harts x.1) x.2.1 &&
    decide (key (d.harts x.1) x ∉ d.hits))

theorem evalBpCondition_pure {s : H} {bp : Breakpoint}
    (h : ∀ c, bp.cond = some c → ∀ s, (readCond o s c).2 = s) : evalBpCondition o s bp = (holds o s bp, s) := by
  rw [holds]
  cases hc : bp.cond with
  | none => simp only [evalBpCondition, hc]
  | some c => simp only [evalBpCondition, hc, h c hc]

theorem reportBpHit_pure {d : Debugger H n} {x : Candidate n}
    (h : ∀ c, x.2.1.cond = some c → ∀ s, (readCond o s c).2 = s) :
    reportBpHit o d x = { d with reports := d.reports ++ [⟨x.1, x.2.2, x.2.1⟩] } := by
  cases hc : x.2.1.cond with
  | none => simp only [reportBpHit, hc]
  | some c => simp only [reportBpHit, hc, h c hc, Function.update_eq_self]

/-- A check reports the first candidate that hits, holds and has not been seen, and nothing else. -/
theorem checkEach_eq {xs : List (Candidate n)} {d : Debugger H n}
    (h : ∀ x ∈ xs, ∀ c, x.2.1.cond = some c → ∀ s, (readCond o s c).2 = s) :
    checkEach o hit key xs d =
      match found o hit key d xs with
      | none => (false, d)
      | some x => (true, { d with
          hits := d.hits ++ [key (d.harts x.1) x]
          reports := d.reports ++ [⟨x.1, x.2.2, x.2.1⟩] }) := by
  induction xs with
  | nil => rfl
  | cons x xs ih =>
    have hx := h x (List.mem_cons_self ..)
    have ih := ih fun y hy => h y (List.mem_cons_of_mem x hy)
    rw [checkEach, found, List.find?_cons, ← found]
    cases hhit : hit (d.harts x.1) x with
    | false => simpa using ih
    | true =>
      cases hholds : holds o (d.harts x.1) x.2.1 with
      | false => simpa [evalBpCondition_pure hx, hholds] using ih
      | true =>
        by_cases hseen : key (d.harts x.1) x ∈ d.hits
        · simpa [evalBpCondition_pure hx, hholds, hseen] using ih
        · simp [evalBpCondition_pure hx, hholds, hseen, reportBpHit_pure hx]

end Pure

/-! ## A hart of the emulator -/

/-- The debugger's view of a hart whose MMU is off. -/
def bareOps : HartOps HartState where
  pc := HartState.pc
  halted := fun _ => false
  waiting := HartState.waiting
  translating := fun _ => false
  translateAddr := fun _ va => some va
  readGpr := Pyremu.readGpr
  readCsr := fun s a => (if a = 0x341 then s.mepc.toNat else if a = 0x342 then s.mcause.toNat else 0, s)

end Pyremu.Debug
