import Pyremu.Clint
import Pyremu.Translate

/-!
# Control and status registers

`csr_read` and `csr_write` check the privilege encoded in bits 9:8 of the
register number and then select on the number. The selection is factored out as
`csrDecode`, one constructor per branch of the source.
-/

namespace Pyremu

/-- State a CSR access may touch. -/
structure CsrCtx where
  state : HartState
  externHartId : Nat
  pmp : PmpCtx
  clint : Clint

inductive CsrStatus where
  | ok | ill | exit
  deriving DecidableEq, Repr

/-- The branches of `csr_read` and `csr_write`. -/
inductive CsrReg where
  | mstatus | misa | medeleg | mideleg | mie | mtvec | mcounteren | mscratch | mepc | mcause
  | mtval | mip | mvendorid | marchid | mimpid | mhartid
  | sstatus | sie | stvec | scounteren | sscratch | sepc | scause | stval | sip | satp | stimecmp
  | miselect | mireg | siselect | sireg | mtopei | stopei | mtopi | stopi
  | fflags | frm | fcsr
  | mcycle | minstret | mcycleh | minstreth
  | cycle | time | instret | cycleh | timeh | instreth
  | mdid | pmpsplit
  | aiaOther | debugTrigger | rv32Only
  | pmpcfgOdd
  | pmpcfg (entryBase : Nat)
  | pmpaddr (n : Nat)
  | unknown
  deriving DecidableEq, Repr

def csrTable : List (BitVec 12 × CsrReg) :=
  [(0x300, .mstatus), (0x301, .misa), (0x302, .medeleg), (0x303, .mideleg), (0x304, .mie),
   (0x305, .mtvec), (0x306, .mcounteren), (0x340, .mscratch), (0x341, .mepc), (0x342, .mcause),
   (0x343, .mtval), (0x344, .mip), (0xF11, .mvendorid), (0xF12, .marchid), (0xF13, .mimpid),
   (0xF14, .mhartid), (0x100, .sstatus), (0x104, .sie), (0x105, .stvec), (0x106, .scounteren),
   (0x140, .sscratch), (0x141, .sepc), (0x142, .scause), (0x143, .stval), (0x144, .sip),
   (0x180, .satp), (0x14D, .stimecmp), (0x350, .miselect), (0x351, .mireg), (0x150, .siselect),
   (0x151, .sireg), (0x35C, .mtopei), (0x15C, .stopei), (0xFB0, .mtopi), (0xDB0, .stopi),
   (0x001, .fflags), (0x002, .frm), (0x003, .fcsr), (0xB00, .mcycle), (0xB02, .minstret),
   (0xB80, .mcycleh), (0xB82, .minstreth), (0xC00, .cycle), (0xC01, .time), (0xC02, .instret),
   (0xC80, .cycleh), (0xC81, .timeh), (0xC82, .instreth), (0x5C0, .mdid), (0x5C1, .pmpsplit),
   (0x308, .aiaOther), (0x309, .aiaOther), (0x318, .aiaOther), (0x319, .aiaOther),
   (0x310, .rv32Only), (0x312, .rv32Only), (0x313, .rv32Only)]

def csrDecode (addr : BitVec 12) : CsrReg :=
  match csrTable.lookup addr with
  | some r => r
  | none =>
    if 0x7A0 ≤ addr ∧ addr ≤ 0x7AF then .debugTrigger
    else if 0x3A1 ≤ addr ∧ addr ≤ 0x3AF ∧ addr.getLsbD 0 then .pmpcfgOdd
    else if 0x3A0 ≤ addr ∧ addr ≤ 0x3AE then .pmpcfg ((addr - 0x3A0).toNat / 2 * 8)
    else if 0x3B0 ≤ addr ∧ addr ≤ 0x3EF then .pmpaddr (addr - 0x3B0).toNat
    else .unknown

/-- Bits 9:8 of the register number. -/
def csrPrivReq (addr : BitVec 12) : BitVec 2 := addr.extractLsb' 8 2

def csrPrivOk (mode : Mode) (privReq : BitVec 2) : Bool :=
  match privReq with
  | 0 => true
  | 1 => decide (Mode.S.rank ≤ mode.rank)
  | 2 => decide (Mode.H.rank ≤ mode.rank)
  | 3 => decide (Mode.M.rank ≤ mode.rank)

/-- The bit of the `counteren` registers that guards a user counter. -/
def counterEnableBit (addr : BitVec 12) : Option Nat :=
  if 0xC00 ≤ addr ∧ addr ≤ 0xC1F then some (addr - 0xC00).toNat
  else if 0xC80 ≤ addr ∧ addr ≤ 0xC9F then some (addr - 0xC80).toNat
  else none

def counterOk (s : HartState) (addr : BitVec 12) : Bool :=
  match counterEnableBit addr with
  | none => true
  | some b =>
    match s.mode with
    | .S => s.mcounteren.getLsbD b
    | .U => s.mcounteren.getLsbD b && s.scounteren.getLsbD b
    | _ => true

/-! ## Fields of `mstatus` -/

def mstatusFs : Word := 3#64 <<< 13
def mstatusVs : Word := 3#64 <<< 9
def mstatusXs : Word := 3#64 <<< 15
def mstatusUbe : Word := bit 6
def mstatusSum : Word := bit 18
def mstatusMxr : Word := bit 19
def mstatusSd : Word := bit 63

def sstatusReadMask : Word :=
  mstatusSie ||| mstatusSpie ||| mstatusUbe ||| mstatusSpp ||| mstatusVs ||| mstatusFs |||
    mstatusXs ||| mstatusMprv ||| mstatusSum ||| mstatusMxr ||| mstatusSd

def sstatusWriteMask : Word := sstatusReadMask &&& ~~~(mstatusVs ||| mstatusSd)

def fpOff (s : HartState) : Bool := decide (s.mstatus &&& mstatusFs = 0)

/-! ## Helpers -/

def cyclesPerInstr : Word := 20

def cyclesOf (s : HartState) : Word := s.totalInstrs * cyclesPerInstr

def misaValue (e : IsaExts) : Word :=
  [(e.isI, 8), (e.isM, 12), (e.isA, 0), (e.isF, 5), (e.isD, 3), (e.isC, 2), (e.isB, 1),
    (e.isH, 7), (e.isV, 21)].foldl (fun v x => if x.1 then v ||| bit x.2 else v)
    ((2#64 <<< 62) ||| bit 18 ||| bit 20)

/-- Both TLBs lose their valid bits; the other fields stay. -/
def tlbFlushInline (s : HartState) : HartState :=
  { s with itlb := fun i => { s.itlb i with valid := false }
           dtlb := fun i => { s.dtlb i with valid := false } }

/-- Up to eight configuration bytes from `base`, as one word. -/
def pmpcfgRead (p : PmpCtx) (base : Nat) : Word :=
  ByteMem.readLe p.cfg base (min (p.num.toNat - base) 8)

def pmpcfgWrite (p : PmpCtx) (base : Nat) (v : Word) : PmpCtx :=
  { p with cfg := ByteMem.writeLe p.cfg base (min (p.num.toNat - base) 8) v }

def iidOf (v : Word) : BitVec 32 := ((v >>> 16) &&& 0x7FF).setWidth 32

namespace CsrCtx

variable (c : CsrCtx)

def setState (s : HartState) : CsrCtx := { c with state := s }

/-- `mtimecmp` of this hart, moved past `mtime` when it has expired. -/
def bumpExpiredMtimecmp : CsrCtx :=
  if c.clint.mtimecmp c.externHartId ≤ c.clint.mtime then
    { c with clint := { c.clint with
        mtimecmp := Function.update c.clint.mtimecmp c.externHartId (c.clint.mtime + 4) } }
  else c

theorem bumpExpiredMtimecmp_state : c.bumpExpiredMtimecmp.state = c.state := by
  simp only [bumpExpiredMtimecmp]
  split <;> rfl

end CsrCtx

/-! ## Reads -/

/-- Read of `mtopei` or `stopei`: the reported identity is claimed at once. -/
def topeiRead (s : HartState) (mfile : Bool) : HartState × Word :=
  let raw := imsicTopeiPeek (s.imsicFile mfile)
  if raw ≠ 0 then
    let f := imsicTopeiClaimIid (s.imsicFile mfile) ((raw >>> 16).setWidth 32)
    (syncImsicOne (s.setImsicFile mfile f) mfile, raw)
  else (s, raw)

/-- The part of `csr_read` after the privilege and counter checks. -/
def csrReadReg (cfg : Features) (c : CsrCtx) (r : CsrReg) : CsrCtx × Word × CsrStatus :=
  let s := c.state
  let aia := fun (s' : HartState) (v : Word) =>
    if cfg.aia then (c.setState s', v, CsrStatus.ok) else (c, 0, .ill)
  let fp := fun (v : Word) => if fpOff s then (c, 0, CsrStatus.ill) else (c, v, .ok)
  match r with
  | .mstatus => (c, s.mstatus, .ok)
  | .medeleg => (c, s.medeleg, .ok)
  | .mideleg => (c, s.mideleg, .ok)
  | .mie => (c, s.mie, .ok)
  | .mtvec => (c, s.mtvec, .ok)
  | .mscratch => (c, s.mscratch, .ok)
  | .mepc => (c, s.mepc, .ok)
  | .mcause => (c, s.mcause, .ok)
  | .mtval => (c, s.mtval, .ok)
  | .mip => (c, s.mip, .ok)
  | .mcounteren => (c, s.mcounteren, .ok)
  | .sstatus => (c, s.mstatus &&& sstatusReadMask, .ok)
  | .sie => (c, s.mie &&& s.mideleg, .ok)
  | .sip => (c, s.mip &&& s.mideleg, .ok)
  | .stvec => (c, s.stvec, .ok)
  | .sscratch => (c, s.sscratch, .ok)
  | .sepc => (c, s.sepc, .ok)
  | .scause => (c, s.scause, .ok)
  | .stval => (c, s.stval, .ok)
  | .satp => (c, s.satp, .ok)
  | .scounteren => (c, s.scounteren, .ok)
  | .stimecmp => if s.isaExts.isSstc then (c, s.stimecmp, .ok) else (c, 0, .ill)
  | .fflags => fp ((s.fcsr &&& 0x1F).setWidth 64)
  | .frm => fp (((s.fcsr >>> 5) &&& 7).setWidth 64)
  | .fcsr => fp ((s.fcsr &&& 0xFF).setWidth 64)
  | .mvendorid | .marchid | .mimpid => (c, 0, .ok)
  | .mhartid => (c, s.mhartid, .ok)
  | .misa => (c, misaValue s.isaExts, .ok)
  | .time => (c, c.clint.mtime, .ok)
  | .timeh => (c, c.clint.mtime >>> 32, .ok)
  | .mcycle | .cycle => (c, cyclesOf s, .ok)
  | .minstret | .instret => (c, s.totalInstrs, .ok)
  | .mcycleh | .cycleh => (c, (cyclesOf s >>> 32) &&& 0xFFFFFFFF, .ok)
  | .minstreth | .instreth => (c, (s.totalInstrs >>> 32) &&& 0xFFFFFFFF, .ok)
  | .mdid => (c, s.mdid, .ok)
  | .pmpsplit => (c, s.pmpsplit.setWidth 64, .ok)
  | .miselect => aia s (s.imsicM.select.setWidth 64)
  | .mireg => aia s (imsicRegRead s.imsicM s.imsicM.select)
  | .siselect => aia s (s.imsicS.select.setWidth 64)
  | .sireg => aia s (imsicRegRead s.imsicS s.imsicS.select)
  | .mtopei => aia (topeiRead s true).1 (topeiRead s true).2
  | .stopei => aia (topeiRead s false).1 (topeiRead s false).2
  | .mtopi => aia (computeMtopi s).1 (computeMtopi s).2
  | .stopi => aia (computeStopi s c.clint.mtime).1 (computeStopi s c.clint.mtime).2
  | .aiaOther | .debugTrigger | .rv32Only => (c, 0, .ok)
  | .pmpcfgOdd => (c, 0, .ill)
  | .pmpcfg base => (c, pmpcfgRead c.pmp base, .ok)
  | .pmpaddr n => (c, if n < c.pmp.num.toNat then c.pmp.addr n else 0, .ok)
  | .unknown => (c, 0, .exit)

def csrRead (cfg : Features) (c : CsrCtx) (addr : BitVec 12) : CsrCtx × Word × CsrStatus :=
  if !csrPrivOk c.state.mode (csrPrivReq addr) then (c, 0, .ill)
  else if !counterOk c.state addr then (c, 0, .ill)
  else csrReadReg cfg c (csrDecode addr)

/-! ## Writes -/

/-- Claim an identity of one file and bring its `mip` line up to date. -/
def claimAndSync (s : HartState) (mfile : Bool) (iid : BitVec 32) : HartState :=
  syncImsicOne (s.setImsicFile mfile (imsicTopeiClaimIid (s.imsicFile mfile) iid)) mfile

/-- Write of `mtopei` or `stopei`; the file's own software identity also clears
the software interrupt. -/
def topeiWrite (s : HartState) (mfile : Bool) (v : Word) : HartState :=
  let iid := iidOf v
  if iid = 0 then s
  else
    let s := claimAndSync s mfile iid
    if mfile ∧ iid = iidMIpi then s.clearMip (bit 3)
    else if !mfile ∧ iid = iidSIpi then s.clearMip (bit 1)
    else s

def mtopiWrite (c : CsrCtx) (v : Word) : CsrCtx :=
  let iid := iidOf v
  if iid = 0 then c
  else if iid = iidMIpi then
    c.setState ((claimAndSync c.state true iid).clearMip (bit 3))
  else if iid = 7 then (c.setState (c.state.clearMip (bit 7))).bumpExpiredMtimecmp
  else if iid = 11 then c
  else c.setState (claimAndSync c.state true iid)

def stopiWrite (c : CsrCtx) (v : Word) : CsrCtx :=
  let iid := iidOf v
  if iid = 0 then c
  else if iid = iidSIpi then
    c.setState ((claimAndSync c.state false iid).clearMip (bit 1))
  else if iid = 5 then
    let s := c.state.clearMip (bit 5)
    let now := c.clint.mtime
    if 0 < s.stimecmp ∧ s.stimecmp ≤ now then
      c.setState (writeStimecmp { s with stimecmp := now + 4 } now (now + 4) c.clint.timebaseHz)
    else c.setState s
  else if iid = 9 then c
  else c.setState (claimAndSync c.state false iid)

/-- `SATP`: the ASID is dropped and both TLBs are flushed. -/
def satpWrite (s : HartState) (v : Word) : HartState :=
  let v := v &&& ~~~(0xFFFF#64 <<< 44)
  tlbFlushInline { s with satp := v, mmuMode := (v >>> 60).setWidth 8 }

/-- A floating-point register write marks the unit dirty. -/
def fcsrWrite (s : HartState) (fcsr : BitVec 32) : HartState :=
  { s with fcsr := fcsr, mstatus := s.mstatus ||| mstatusFs ||| mstatusSd }

/-- The part of `csr_write` after the privilege check. -/
def csrWriteReg (cfg : Features) (c : CsrCtx) (r : CsrReg) (v : Word) : CsrCtx × CsrStatus :=
  let s := c.state
  let put := fun (s' : HartState) => (c.setState s', CsrStatus.ok)
  let fp := fun (fcsr : BitVec 32) => if fpOff s then (c, CsrStatus.ill) else put (fcsrWrite s fcsr)
  let aia := fun (c' : CsrCtx) => if cfg.aia then (c', CsrStatus.ok) else (c, .ill)
  match r with
  | .mstatus => put { s with mstatus := (v &&& ~~~mstatusSd) ||| (s.mstatus &&& mstatusSd) }
  | .medeleg => put { s with medeleg := v }
  | .mideleg => put { s with mideleg := v }
  | .mie => put { s with mie := v }
  | .mtvec => put { s with mtvec := v }
  | .mscratch => put { s with mscratch := v }
  | .mepc => put { s with mepc := v }
  | .mcause => put { s with mcause := v }
  | .mtval => put { s with mtval := v }
  | .mip =>
    let roMask := bit 3 ||| bit 7 ||| bit 9 ||| bit 11
    put { s with mip := (s.mip &&& roMask) ||| (v &&& ~~~roMask) }
  | .mcounteren => put { s with mcounteren := v }
  | .sstatus =>
    put { s with mstatus := (s.mstatus &&& ~~~sstatusWriteMask) ||| (v &&& sstatusWriteMask) }
  | .sie => put { s with mie := (s.mie &&& ~~~s.mideleg) ||| (v &&& s.mideleg) }
  | .sip => put { s with mip := (s.mip &&& ~~~(bit 1)) ||| (v &&& bit 1) }
  | .stvec => put { s with stvec := v }
  | .sscratch => put { s with sscratch := v }
  | .sepc => put { s with sepc := v }
  | .scause => put { s with scause := v }
  | .stval => put { s with stval := v }
  | .scounteren => put { s with scounteren := v }
  | .satp => put (satpWrite s v)
  | .misa | .mvendorid | .marchid | .mimpid | .mhartid => (c, .ok)
  | .time | .timeh => (c, .ok)
  | .mcycle | .minstret | .mcycleh | .minstreth => (c, .ok)
  | .cycle | .instret | .cycleh | .instreth => (c, .ok)
  | .stimecmp =>
    if !s.isaExts.isSstc then (c, .ill)
    else put (writeStimecmp { s with stimecmp := v } c.clint.mtime v c.clint.timebaseHz)
  | .fflags => fp ((s.fcsr &&& ~~~0x1F#32) ||| (v.setWidth 32 &&& 0x1F))
  | .frm => fp ((s.fcsr &&& ~~~0xE0#32) ||| ((v.setWidth 32 &&& 7) <<< 5))
  | .fcsr => fp (v.setWidth 32 &&& 0xFF)
  | .mdid => put { s with mdid := v }
  | .pmpsplit => put { s with pmpsplit := v.setWidth 8 }
  | .debugTrigger | .aiaOther | .rv32Only => (c, .ok)
  | .miselect => aia (c.setState { s with imsicM := { s.imsicM with select := v.setWidth 32 } })
  | .mireg =>
    aia (c.setState (syncImsicOne
      { s with imsicM := imsicRegWrite s.imsicM s.imsicM.select v } true))
  | .siselect => aia (c.setState { s with imsicS := { s.imsicS with select := v.setWidth 32 } })
  | .sireg =>
    aia (c.setState (syncImsicOne
      { s with imsicS := imsicRegWrite s.imsicS s.imsicS.select v } false))
  | .mtopei => aia (c.setState (topeiWrite s true v))
  | .stopei => aia (c.setState (topeiWrite s false v))
  | .mtopi => aia (mtopiWrite c v)
  | .stopi => aia (stopiWrite c v)
  | .pmpcfgOdd => (c, .ill)
  | .pmpcfg base => ({ c with pmp := pmpcfgWrite c.pmp base v }, .ok)
  | .pmpaddr n =>
    if n < c.pmp.num.toNat then
      ({ c with pmp := { c.pmp with addr := Function.update c.pmp.addr n v } }, .ok)
    else (c, .ok)
  | .unknown => (c, .exit)

def csrWrite (cfg : Features) (c : CsrCtx) (addr : BitVec 12) (v : Word) : CsrCtx × CsrStatus :=
  if !csrPrivOk c.state.mode (csrPrivReq addr) then (c, .ill)
  else csrWriteReg cfg c (csrDecode addr) v

/-! ## The six CSR instructions -/

/-- New value by the low two bits of `funct3`; the fourth combination is illegal. -/
def csrNewVal (funct3 : BitVec 3) (old rs1Val : Word) : Option Word :=
  match funct3.extractLsb' 0 2 with
  | 1 => some rs1Val
  | 2 => some (old ||| rs1Val)
  | 3 => some (old &&& ~~~rs1Val)
  | 0 => none

/-- Immediate forms use the register field itself. -/
def csrOperand (s : HartState) (funct3 : BitVec 3) (rs1 : BitVec 5) : Word :=
  if 4 ≤ funct3 then rs1.setWidth 64 else readGpr s rs1

/-- Acknowledge a software interrupt of the file's own level. -/
def ackSoft (s : HartState) (mfile : Bool) (iid : BitVec 32) : HartState :=
  if mfile ∧ iid = 3 then s.clearMip (bit 3)
  else if !mfile ∧ iid = 1 then s.clearMip (bit 1)
  else s

/-- Acknowledge the supervisor timer; an expired `stimecmp` moves past `mtime`. -/
def ackStimer (s : HartState) (mfile : Bool) (iid : BitVec 32) (mtime : Word) : HartState :=
  if !mfile ∧ iid = 5 then
    let s := s.clearMip (bit 5)
    if 0 < s.stimecmp ∧ s.stimecmp ≤ mtime then { s with stimecmp := mtime + 4 } else s
  else s

/-- `mtopei` and `stopei` acknowledge the identity found by the read, whatever
the instruction would have written. -/
def topeiAck (c : CsrCtx) (mfile : Bool) (old : Word) : CsrCtx :=
  let iid : BitVec 32 := (old >>> 16).setWidth 32
  let s := c.state.setImsicFile mfile (imsicTopeiClaimIid (c.state.imsicFile mfile) iid)
  let s := ackStimer (ackSoft s mfile iid) mfile iid c.clint.mtime
  let c := if mfile ∧ iid = 7 then (c.setState (s.clearMip (bit 7))).bumpExpiredMtimecmp
    else c.setState s
  c.setState (syncImsicOne c.state mfile)

/-- What the caller learns when it has to leave the round. -/
structure InstrToBeExec where
  exitReason : ExitReason
  exitInstr : BitVec 32
  deriving DecidableEq, Repr

def handleCsr (cfg : Features) (c : CsrCtx) (rd rs1 : BitVec 5) (csrAddr : BitVec 12)
    (funct3 : BitVec 3) (instr : BitVec 32) (g : InstrToBeExec) :
    CsrCtx × InstrToBeExec × Word :=
  let illegal := fun (c : CsrCtx) =>
    (c.setState (deliverIllegalInstruction c.state (instr.setWidth 64)), g, (0 : Word))
  match csrRead cfg c csrAddr with
  | (c, _, .ill) => illegal c
  | (c, _, .exit) => (c, ⟨.ecall, instr⟩, exitSentinel)
  | (c, old, .ok) =>
    match csrNewVal funct3 old (csrOperand c.state funct3 rs1) with
    | none => illegal c
    | some new =>
      let r := csrDecode csrAddr
      if r = .mtopei ∨ r = .stopei then
        let c := topeiAck c (decide (r = .mtopei)) old
        (c.setState (writeGpr c.state rd old), g, 4)
      else
        match csrWrite cfg c csrAddr new with
        | (c, .ill) => illegal c
        | (c, .exit) => (c, ⟨.ecall, instr⟩, exitSentinel)
        | (c, .ok) => (c.setState (writeGpr c.state rd old), g, 4)

end Pyremu
