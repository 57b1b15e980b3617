import Pyremu.AtomInstr
import Pyremu.Handlers

/-!
# The concurrent engine's instruction step

System instructions, the dispatch on the opcode, and the advance of the program
counter. An advance of zero means that the handler has rewritten `pc` itself.
-/

namespace Pyremu

/-! ## System instructions -/

def World.csrCtx (w : World) : CsrCtx := ⟨w.hart, w.hartId, w.pmp, w.clint⟩

def World.setCsrCtx (w : World) (c : CsrCtx) : World :=
  { w with hart := c.state, pmp := c.pmp, clint := c.clint }

def handleCsrConcurrent (cfg : Features) (w : World) (f : DecodedFields) (instr : BitVec 32) :
    World × Word :=
  let r := handleCsr cfg w.csrCtx f.rd f.rs1 f.func12 f.func3 instr ⟨.normal, 0⟩
  (w.setCsrCtx r.1, r.2.2)

/-- `set_timer` of the SBI TIME extension. -/
def sbiSetTimer (w : World) : World :=
  let v := readGpr w.hart 10
  let hid := w.hart.mhartid.toNat
  let w := if hid < w.clint.numHarts then
      { w with
        clint := { w.clint with mtimecmp := Function.update w.clint.mtimecmp hid v }
        hart := writeMtimecmp w.hart w.clint.mtime v w.clint.timebaseHz }
    else w
  w.setHart { w.hart with gprs := Function.update w.hart.gprs 10 0 }

/-- Only a call from S mode may be served without a trap. -/
def privEcall (w : World) : World × Word :=
  if w.hart.mode ≠ .S then
    (w.trap (if w.hart.mode = .U then Exc.ecallUmode else Exc.ecallMmode) 0, 0)
  else
    let a7 := readGpr w.hart 17
    let a6 := readGpr w.hart 16
    match uartTryEcall w.uart w.hart a7 a6 with
    | (u, s, some adv) => ({ w with uart := u, hart := s }, adv)
    | (_, _, none) =>
      if a7 = 0x54494d45 ∧ a6 = 0 then (sbiSetTimer w, 4)
      else (w.trap Exc.ecallSmode 0, 0)

def handleEbreak (cfg : Features) (w : World) : World × Word :=
  if !cfg.hasSemihosting then (w.trap Exc.breakpoint w.hart.pc, 0)
  else if w.hart.gprs 10 = shSysExit ∧ semihostingMatch w.mem w.hart.pc then
    let info : StopInfo := ⟨.ebreak, BitVec.ofNat 8 w.hartId, w.hart.pc, 0⟩
    ({ w with module := w.module.requestStop info }, 0)
  else
    match trySemihosting cfg w.hart w.mem w.hart.pc with
    | (s, some adv) => (w.setHart s, adv)
    | (s, none) => (w.setHart s, 4)

/-- SFENCE.VMA: flush both TLBs, then move the shared counter and note its new
value for this hart. -/
def sfenceVma (w : World) : World :=
  let cnt := (w.mem.tlbFlushCnt.getD 0) + 1
  { w with
    hart := { w.hart with itlb := tlbFlushAll w.hart.itlb, dtlb := tlbFlushAll w.hart.dtlb }
    mem := { w.mem with tlbFlushCnt := w.mem.tlbFlushCnt.map fun _ => cnt }
    module := { w.module with
      tlbFlushCntPerHart := Function.update w.module.tlbFlushCntPerHart w.hartId cnt } }

/-- Invalidate the entries of one domain. -/
def tlbInvalidateDid (tlb : Tlb) (mdid : Word) : Tlb :=
  fun i => if (tlb i).mdid = mdid then { tlb i with valid := false } else tlb i

/-- MFENCE.DID. -/
def mfenceDid (s : HartState) : HartState :=
  { s with itlb := tlbInvalidateDid s.itlb s.mdid, dtlb := tlbInvalidateDid s.dtlb s.mdid }

def handleSystem (cfg : Features) (w : World) (f : DecodedFields) (instr : BitVec 32) :
    World × Word :=
  if f.func3 ≠ 0 then handleCsrConcurrent cfg w f instr
  else if f.func12 = 0 then privEcall w
  else if f.func12 = 1 then handleEbreak cfg w
  else if f.func12 = 0x302 then
    let r := privMret w.hart instr
    (w.setHart r.1, r.2)
  else if f.func12 = 0x102 then
    let r := privSret w.hart instr
    (w.setHart r.1, r.2)
  else if f.func12 = 0x105 then
    let r := privWfi w.hart instr
    (w.setHart r.1, r.2)
  else if f.func12 >>> 5 = 0x09 then (sfenceVma w, 4)
  else if f.func12 = 0x5a0 then (w.setHart (mfenceDid w.hart), 4)
  else (w.illegal instr, 0)

/-! ## Dispatch -/

/-- Run a handler that touches nothing but the hart. -/
def World.onHart (w : World) (r : HartState × Word) : World × Word := (w.setHart r.1, r.2)

def dispatchConcurrent (cfg : Features) (sf : SoftFloat) (w : World) (f : DecodedFields)
    (instr : BitVec 32) : World × Word :=
  match f.opcode with
  | 0b0110011 => w.onHart (handleAlu w.hart f instr)
  | 0b0010011 => w.onHart (handleOpImm w.hart f instr)
  | 0b0011011 => w.onHart (handleOpImm32 w.hart f instr)
  | 0b0111011 => w.onHart (handleOp32 w.hart f instr)
  | 0b0110111 => w.onHart (handleLui w.hart f)
  | 0b0010111 => w.onHart (handleAuipc w.hart f)
  | 0b1101111 => w.onHart (handleJal w.hart f)
  | 0b1100111 => w.onHart (handleJalr w.hart f)
  | 0b1100011 => w.onHart (handleBr w.hart f instr)
  | 0b0001111 => w.onHart (handleFence w.hart f instr)
  | 0b0000011 => handleLoad cfg w f instr
  | 0b0100011 => handleStore cfg w f instr
  | 0b0000111 => handleFpLoad cfg w f instr
  | 0b0100111 => handleFpStore cfg w f instr
  | 0b1110011 => handleSystem cfg w f instr
  | 0b0101111 => handleAmoConcurrentDispatch cfg w f instr
  | 0b1010011 => w.onHart (handleFpOp sf w.hart f instr)
  | 0b1000011 | 0b1000111 | 0b1001011 | 0b1001111 => w.onHart (handleFpFma sf w.hart f instr)
  | _ => (w.illegal instr, 0)

/-- Advance only when the handler has left `pc` alone. -/
def advancePc (s : HartState) (advance pcBefore : Word) : HartState :=
  if advance ≠ 0 ∧ s.pc = pcBefore then { s with pc := s.pc + advance } else s

/-- A compressed instruction followed by the advance of `pc`. -/
def execCompressed (cfg : Features) (w : World) (instrWord : BitVec 32) : World :=
  let pcBefore := w.hart.pc
  match handleCompressed cfg w (instrWord.setWidth 16) instrWord ⟨.normal, 0⟩ with
  | (w, g, advance) =>
    if advance = exitSentinel then
      let reason := if g.exitReason ≠ .normal then g.exitReason else .ecall
      let info : StopInfo := ⟨reason, BitVec.ofNat 8 w.hartId, pcBefore, instrWord⟩
      { w with module := w.module.requestStop info }
    else w.setHart (advancePc w.hart advance pcBefore)

/-- A 32-bit instruction followed by the advance of `pc`. -/
def execWord (cfg : Features) (sf : SoftFloat) (w : World) (instr : BitVec 32) : World :=
  let pcBefore := w.hart.pc
  match dispatchConcurrent cfg sf w (decodeFields instr) instr with
  | (w, advance) =>
    if advance = exitSentinel then
      let info : StopInfo := ⟨.mmio, BitVec.ofNat 8 w.hartId, pcBefore, instr⟩
      { w with module := w.module.requestStop info }
    else w.setHart (advancePc w.hart advance pcBefore)

/-- Before an instruction: a moved flush counter makes every entry stale. -/
def markTlbDirtyIfStale (w : World) : World :=
  let cnt := w.mem.tlbFlushCnt.getD 0
  if w.module.tlbFlushCntPerHart w.hartId = cnt then w
  else
    { w with
      hart := { w.hart with itlb := tlbMarkAllDirty w.hart.itlb,
                            dtlb := tlbMarkAllDirty w.hart.dtlb }
      module := { w.module with
        tlbFlushCntPerHart := Function.update w.module.tlbFlushCntPerHart w.hartId cnt } }

end Pyremu
