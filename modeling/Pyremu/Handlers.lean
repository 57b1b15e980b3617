import Pyremu.LoadStore

/-!
# Compressed instructions and semihosting

The handlers of `handlers.rs` that the concurrent engine still uses. Memory
accesses of compressed instructions have a path of their own: the serial device
handlers and the checked RAM accessors. A delivered trap is reported to the
caller only through a change of privilege mode.
-/

namespace Pyremu

open ByteMem

/-! ## Serial device handlers -/

/-- `try_handle_clint` with a null state array: registers change, no hart does. -/
def tryHandleClintSerial (w : World) (pa : Word) (isWrite : Bool) (writeData : Word) :
    World × Option Word :=
  if w.clint.base = 0 then (w, none)
  else
    let offset := (pa - w.clint.base).toNat
    if offset < 0x4000 then
      let target := offset / 4
      if w.clint.numHarts ≤ target then (w, some 0)
      else if !isWrite then (w, some ((w.clint.msip target).setWidth 64 &&& 1))
      else
        ({ w with clint := { w.clint with
            msip := Function.update w.clint.msip target ((writeData &&& 1).setWidth 8) } }, some 0)
    else if offset < 0xBFF8 then
      let target := (offset - 0x4000) / 8
      if w.clint.numHarts ≤ target then (w, some 0)
      else if !isWrite then (w, some (w.clint.mtimecmp target))
      else
        ({ w with clint := { w.clint with
            mtimecmp := Function.update w.clint.mtimecmp target writeData } }, some 0)
    else if offset < 0xC000 ∧ !isWrite then (w, some w.clint.mtime)
    else (w, none)

/-- A zero value stands for a read and has no effect. -/
def tryHandleImsicSerial (cfg : Features) (w : World) (pa val : Word) : World × Bool :=
  if !cfg.aia then (w, false)
  else
    match decodeImsicAddr cfg pa w.clint.numHarts with
    | none => (w, false)
    | some a =>
      if a.regOff ≠ 0 ∧ a.regOff ≠ 8 then (w, false)
      else if val.setWidth 32 = (0 : BitVec 32) then (w, true)
      else if a.regOff = 0 then
        (w.updatePeer a.hart fun s => imsicEipSet s a.isSfile (val.setWidth 32), true)
      else (w.updatePeer a.hart fun s => imsicEipClear s a.isSfile (val.setWidth 32), true)

/-- The device handlers of a compressed access, in the order of the source. -/
def serialDevice (cfg : Features) (w : World) (pa : Word) (isWrite : Bool) (v : Word)
    (size : Nat) : World × Option Word :=
  firstDevice w
    [fun w => tryHandleClintSerial w pa isWrite v,
     fun w => ((tryHandleImsicSerial cfg w pa v).1,
       if (tryHandleImsicSerial cfg w pa v).2 then some 0 else none),
     fun w => w.tryVirtio pa isWrite v, fun w => w.tryPlic pa isWrite v size]

/-! ## Memory accesses -/

/-- `none` asks the caller to leave the round. After a trap the value is zero and
the caller has to notice the trap by itself. -/
def loadMemCompressed (cfg : Features) (w : World) (va : Word) (size : Nat)
    (instrWord : BitVec 32) (g : InstrToBeExec) : World × InstrToBeExec × Option Word :=
  match translateAccess cfg w va .read size Exc.ldAccessFault va va with
  | (w, none) => (w, g, some 0)
  | (w, some pa) =>
    match serialDevice cfg w pa false 0 size with
    | (w, some d) => (w, g, some d)
    | (w, none) =>
      if isDeviceAddr pa w.dev then (w, ⟨.mmio, instrWord⟩, none)
      else (w, g, some (ramRead w.mem pa size))

/-- Returns 0, also after a trap, or the exit sentinel. -/
def storeMemCompressed (cfg : Features) (w : World) (va v : Word) (size : Nat)
    (instrWord : BitVec 32) (g : InstrToBeExec) : World × InstrToBeExec × Word :=
  match translateAccess cfg w va .write size Exc.stAccessFault va va with
  | (w, none) => (w, g, 0)
  | (w, some pa) =>
    match serialDevice cfg w pa true v size with
    | (w, some _) => (w, g, 0)
    | (w, none) =>
      if isDeviceAddr pa w.dev then (w, ⟨.mmio, instrWord⟩, exitSentinel)
      else ({ w with mem := (ramWrite w.mem pa v size).1 }, g, 0)

/-- What the six compressed loads have in common. -/
def compressedLoad (cfg : Features) (w : World) (va : Word) (size : Nat) (instrWord : BitVec 32)
    (g : InstrToBeExec) (done : World → Word → World) : World × InstrToBeExec × Word :=
  let prevMode := w.hart.mode
  match loadMemCompressed cfg w va size instrWord g with
  | (w, g, none) => (w, g, exitSentinel)
  | (w, g, some v) => if w.hart.mode ≠ prevMode then (w, g, 0) else (done w v, g, 2)

/-- What the six compressed stores have in common. -/
def compressedStore (cfg : Features) (w : World) (va v : Word) (size : Nat)
    (instrWord : BitVec 32) (g : InstrToBeExec) (done : World → World) :
    World × InstrToBeExec × Word :=
  match storeMemCompressed cfg w va v size instrWord g with
  | (w, g, ret) => if ret = exitSentinel then (w, g, exitSentinel) else (done w, g, 2)

/-! ## Quadrants -/

def sext32 (v : Word) : Word := (v.setWidth 32).signExtend 64

def World.setFpr (w : World) (rd : BitVec 5) (v : Word) : World :=
  w.setHart (setFsDirty (writeFpr w.hart rd v))

def World.fsDirty (w : World) : World := w.setHart (setFsDirty w.hart)

def handleC0 (cfg : Features) (w : World) (cf : CompressedFields) (instrWord : BitVec 32)
    (g : InstrToBeExec) : World × InstrToBeExec × Word :=
  let addr := readGpr w.hart cf.rs1p + cf.imm
  match cf.funct3 with
  | 0b000 =>
    if cf.imm = 0 then (w.illegal instrWord, g, 0)
    else (w.writeGpr cf.rd (w.hart.gprs 2 + cf.imm), g, 2)
  | 0b001 => compressedLoad cfg w addr 8 instrWord g fun w v => w.setFpr cf.rdp v
  | 0b010 => compressedLoad cfg w addr 4 instrWord g fun w v => w.writeGpr cf.rd (sext32 v)
  | 0b011 => compressedLoad cfg w addr 8 instrWord g fun w v => w.writeGpr cf.rd v
  | 0b101 => compressedStore cfg w addr (w.hart.fprs cf.rdp) 8 instrWord g fun w => w.fsDirty
  | 0b110 =>
    compressedStore cfg w addr (readGpr w.hart cf.rdp &&& 0xFFFFFFFF) 4 instrWord g fun w => w
  | 0b111 => compressedStore cfg w addr (readGpr w.hart cf.rdp) 8 instrWord g fun w => w
  | _ => (w.illegal instrWord, g, 0)

/-- `none` for the two reserved word operations. -/
def c1AluRegOp (v1 v2 : Word) (bit12 : BitVec 1) (bit65 : BitVec 2) : Option Word :=
  if bit12 = 0 then
    match bit65 with
    | 0b00 => some (v1 - v2)
    | 0b01 => some (v1 ^^^ v2)
    | 0b10 => some (v1 ||| v2)
    | _ => some (v1 &&& v2)
  else
    match bit65 with
    | 0b00 => some (sext32 ((v1 - v2) &&& 0xFFFFFFFF))
    | 0b01 => some (sext32 ((v1 + v2) &&& 0xFFFFFFFF))
    | _ => none

def execC1Alu (s : HartState) (cf : CompressedFields) : Option Word :=
  let v1 := readGpr s cf.rs1p
  let six : BitVec 6 := cf.bit12 ++ cf.rs2
  match cf.sf with
  | 0b00 => some (v1 >>> six.toNat)
  | 0b01 => some (v1.sshiftRight six.toNat)
  | 0b10 => some (v1 &&& six.signExtend 64)
  | 0b11 => c1AluRegOp v1 (readGpr s cf.rdp) cf.bit12 cf.bit65

/-- A zero immediate of C.LUI or C.ADDI16SP leaves the round without a reason. -/
def handleC1 (s : HartState) (cf : CompressedFields) (instrWord : BitVec 32) : HartState × Word :=
  let illegal := (deliverIllegalInstruction s (instrWord.setWidth 64), (0 : Word))
  match cf.funct3 with
  | 0b000 => (writeGpr s cf.rd (readGpr s cf.rd + cf.imm), 2)
  | 0b001 => (writeGpr s cf.rd (sext32 ((readGpr s cf.rd + cf.imm) &&& 0xFFFFFFFF)), 2)
  | 0b010 => (writeGpr s cf.rd cf.imm, 2)
  | 0b011 =>
    if cf.imm = 0 then (s, exitSentinel)
    else if cf.rd = 2 then
      ({ s with gprs := Function.update s.gprs 2 (s.gprs 2 + cf.imm) }, 2)
    else (writeGpr s cf.rd (cf.imm <<< 12), 2)
  | 0b100 =>
    match execC1Alu s cf with
    | some r => (writeGpr s cf.rs1p r, 2)
    | none => illegal
  | 0b101 => ({ s with pc := s.pc + cf.imm }, 0)
  | 0b110 => if readGpr s cf.rs1p = 0 then ({ s with pc := s.pc + cf.imm }, 0) else (s, 2)
  | 0b111 => if readGpr s cf.rs1p ≠ 0 then ({ s with pc := s.pc + cf.imm }, 0) else (s, 2)

/-- C.JR, C.MV, C.EBREAK, C.JALR and C.ADD. -/
def handleC2Reg (cfg : Features) (s : HartState) (cf : CompressedFields) : HartState × Word :=
  if cf.rd = 0 ∧ cf.rs2 = 0 then
    if !cfg.hasSemihosting then
      (deliverTrap s (mcauseVal Exc.breakpoint false) s.pc, 0)
    else (s, 2)
  else if cf.rs2 = 0 then
    let target := readGpr s cf.rd
    let s := if cf.bit12 ≠ 0 then
        { s with gprs := Function.update s.gprs 1 (s.pc + 2) } else s
    ({ s with pc := target &&& ~~~1 }, 0)
  else if cf.bit12 ≠ 0 then (writeGpr s cf.rd (readGpr s cf.rd + readGpr s cf.rs2), 2)
  else (writeGpr s cf.rd (readGpr s cf.rs2), 2)

def handleC2 (cfg : Features) (w : World) (cf : CompressedFields) (instrWord : BitVec 32)
    (g : InstrToBeExec) : World × InstrToBeExec × Word :=
  let loadAddr := w.hart.gprs 2 + cf.imm
  let storeAddr := w.hart.gprs 2 + cf.imm2
  let illegal := (w.illegal instrWord, g, (0 : Word))
  match cf.funct3 with
  | 0b000 => (w.writeGpr cf.rd (readGpr w.hart cf.rd <<< cf.imm), g, 2)
  | 0b001 =>
    if fpOff w.hart then illegal
    else compressedLoad cfg w loadAddr 8 instrWord g fun w v => w.setFpr cf.rd v
  | 0b010 =>
    if cf.rd = 0 then illegal
    else compressedLoad cfg w loadAddr 4 instrWord g fun w v => w.writeGpr cf.rd (sext32 v)
  | 0b011 =>
    if cf.rd = 0 then illegal
    else compressedLoad cfg w loadAddr 8 instrWord g fun w v => w.writeGpr cf.rd v
  | 0b100 =>
    let r := handleC2Reg cfg w.hart cf
    (w.setHart r.1, g, r.2)
  | 0b101 =>
    if fpOff w.hart then illegal
    else compressedStore cfg w storeAddr (w.hart.fprs cf.rs2) 8 instrWord g fun w => w.fsDirty
  | 0b110 =>
    compressedStore cfg w storeAddr (readGpr w.hart cf.rs2 &&& 0xFFFFFFFF) 4 instrWord g
      fun w => w
  | 0b111 => compressedStore cfg w storeAddr (readGpr w.hart cf.rs2) 8 instrWord g fun w => w

def handleCompressed (cfg : Features) (w : World) (half : BitVec 16) (instrWord : BitVec 32)
    (g : InstrToBeExec) : World × InstrToBeExec × Word :=
  let cf := decodeCompressed half
  match cf.quadrant with
  | 0 => handleC0 cfg w cf instrWord g
  | 1 =>
    let r := handleC1 w.hart cf instrWord
    (w.setHart r.1, g, r.2)
  | 2 => handleC2 cfg w cf instrWord g
  | 3 => (w.illegal (half.setWidth 32), g, 0)

/-! ## Semihosting -/

def semihostingPre : BitVec 32 := 0x01f01013
def semihostingPost : BitVec 32 := 0x40705013
def shSysExit : Word := 0x18

/-- An eight-byte read below the top of RAM; both ends wrap. -/
def readRamU64 (c : WalkCtx) (pa : Word) : Word :=
  if c.ramBase + c.ramSize < pa + 8 ∨ pa < c.ramBase then 0
  else readLe c.ram (pa - c.ramBase).toNat 8

/-- The value returned in `a0`. Console output leaves the guest and is dropped. -/
def semihostingDispatch (c : WalkCtx) (op paramBlock : Word) : Word :=
  let minusOne : Word := BitVec.allOnes 64
  if op = 0x03 then 0
  else if op = 0x05 then
    let fd := readRamU64 c paramBlock
    let bufAddr := readRamU64 c (paramBlock + 8)
    let len := readRamU64 c (paramBlock + 16)
    if len = 0 then 0
    else if fd ≠ 1 ∧ fd ≠ 2 then minusOne
    else if c.ramBase ≤ bufAddr ∧ bufAddr + len ≤ c.ramBase + c.ramSize then 0
    else minusOne
  else if op = 0x01 then 1
  else if op = 0x09 then (if readRamU64 c paramBlock ≤ 2 then 1 else 0)
  else minusOne

/-- Is the `ebreak` at `pc` framed by the two marker instructions? -/
def semihostingMatch (c : WalkCtx) (pc : Word) : Bool :=
  if pc < c.ramBase ∨ c.ramBase + c.ramSize < pc + 4 then false
  else
    let off := pc - c.ramBase
    if off.slt 4 then false
    else if (readLe c.ram (off - 4).toNat 4).setWidth 32 ≠ semihostingPre then false
    else decide ((readLe c.ram (off + 4).toNat 4).setWidth 32 = semihostingPost)

def trySemihosting (cfg : Features) (s : HartState) (c : WalkCtx) (pc : Word) :
    HartState × Option Word :=
  if !cfg.hasSemihosting ∨ !semihostingMatch c pc then (s, none)
  else
    ({ s with gprs := Function.update s.gprs 10 (semihostingDispatch c (s.gprs 10) (s.gprs 11)) },
      some 8)

end Pyremu
