import Pyremu.Clint
import Pyremu.Translate

/-!
# Devices served inside the engine

CLINT, UART, virtio-blk, PLIC and IMSIC windows. A handler answers `none` when
the access is not its own, or must be replayed by the host. A CLINT or IMSIC
write may change another hart, so these handlers work on the whole `World`.
-/

namespace Pyremu

structure Uart where
  base : Word
  txBuf : Option (Nat → BitVec 8)
  txCap : Nat
  txWr : Option (BitVec 32)
  ie : BitVec 32
  txctrl : BitVec 32
  rxctrl : BitVec 32
  rxFifoLen : BitVec 32

structure VirtIo where
  capacity : Word
  queueNumMax : BitVec 32
  deviceFeaturesSel : BitVec 32
  driverFeaturesSel : BitVec 32
  driverFeatures : Word
  queueSel : BitVec 32
  queueNum : BitVec 32
  queueReady : Bool
  queueDesc : Word
  queueDriver : Word
  queueDevice : Word
  status : BitVec 32
  interruptStatus : BitVec 32
  notifyPending : Bool
  deriving DecidableEq, Repr

structure Plic where
  base : Word
  numSources : Nat
  numContexts : Nat
  priority : Nat → BitVec 8
  pending : Nat → Bool
  level : Nat → Bool
  enable : Nat → BitVec 32
  threshold : Nat → BitVec 8
  claimed : Nat → BitVec 32

/-- Device windows, half open, and the devices behind two of them. -/
structure DevCtx where
  windows : List (Word × Word)
  virtioBase : Word
  virtio : VirtIo
  plic : Option Plic

def isDeviceAddr (pa : Word) (dev : DevCtx) : Bool :=
  dev.windows.any fun w => decide (w.1 ≤ pa) && decide (pa < w.2)

structure StopInfo where
  reason : ExitReason
  hartId : BitVec 8
  pc : Word
  instr : BitVec 32
  deriving DecidableEq, Repr

/-- The engine's shared control block; the flush counter itself is in `WalkCtx`.
`requests` is a ghost log of all stop requests, those that came too late included. -/
structure ModuleState where
  stopFlag : Bool
  stopInfo : StopInfo
  tlbFlushCntPerHart : Nat → Word
  requests : List StopInfo

/-- The first request wins. -/
def ModuleState.requestStop (m : ModuleState) (info : StopInfo) : ModuleState :=
  let m := { m with requests := m.requests ++ [info] }
  if m.stopFlag then m else { m with stopFlag := true, stopInfo := info }

/-- All state one instruction can reach. `peers` is the array of all hart states,
whose slot `hartId` is `hart` itself. -/
structure World where
  hart : HartState
  hartId : Nat
  peers : Option (Nat → HartState)
  mem : WalkCtx
  pmp : PmpCtx
  clint : Clint
  dev : DevCtx
  uart : Uart
  module : ModuleState

/-- One zeroed hart over zeroed RAM, without devices and PMP entries. -/
def World.zeroed (l : Layout) : World where
  hart := .zeroed
  hartId := 0
  peers := none
  mem := { toLayout := l, ram := fun _ => 0, tlbFlushCnt := some 0, lrReserved := some fun _ => 0,
           numHarts := 1 }
  pmp := ⟨fun _ => 0, fun _ => 0, 0⟩
  clint := ⟨0, 0, fun _ => 0, fun _ => 0, 0, 1, none⟩
  dev := ⟨[], 0, ⟨0, 0, 0, 0, 0, 0, 0, false, 0, 0, 0, 0, 0, false⟩, none⟩
  uart := ⟨0, none, 0, none, 0, 0, 0, 0⟩
  module := ⟨false, ⟨.normal, 0, 0, 0⟩, fun _ => 0, []⟩

namespace World

variable (w : World)

def setHart (s : HartState) : World := { w with hart := s }

/-- Change hart `i` through the shared array; nothing happens without one. -/
def updatePeer (i : Nat) (f : HartState → HartState) : World :=
  match w.peers with
  | none => w
  | some p =>
    if i = w.hartId then { w with hart := f w.hart }
    else { w with peers := some (Function.update p i (f (p i))) }

end World

/-! ## CLINT -/

def clintWriteMsip (w : World) (target : Nat) (val : Bool) : World :=
  if w.clint.numHarts ≤ target then w
  else if val then
    { w with clint := { w.clint with
        msip := Function.update w.clint.msip target (w.clint.msip target ||| 1)
        msipPending := w.clint.msipPending.map fun p =>
          Function.update p target (p target ||| bit 3) } }
  else
    let w := { w with clint := { w.clint with
      msip := Function.update w.clint.msip target (w.clint.msip target &&& 0xFE) } }
    w.updatePeer target fun s => s.clearMip (bit 3)

def writeMtimecmpForTarget (w : World) (target : Nat) (val : Word) : World :=
  if target < w.clint.numHarts then
    w.updatePeer target fun s => writeMtimecmp s w.clint.mtime val w.clint.timebaseHz
  else w

def tryHandleClint (w : World) (pa : Word) (isWrite : Bool) (writeData : Word) (size : Nat) :
    World × Option Word :=
  if w.clint.base = 0 then (w, none)
  else
    let offset := (pa - w.clint.base).toNat
    if offset < 0x4000 then
      let target := offset / 4
      if w.clint.numHarts ≤ target then (w, some 0)
      else if !isWrite then (w, some ((w.clint.msip target).setWidth 64 &&& 1))
      else (clintWriteMsip w target (writeData.getLsbD 0), some 0)
    else if offset < 0xBFF8 then
      let regOffset := offset - 0x4000
      let target := regOffset / 8
      let lane := regOffset % 8
      if w.clint.numHarts ≤ target then (w, some 0)
      else if 8 < lane + size then (w, some 0)
      else if isWrite then
        let merged := mergeLane (w.clint.mtimecmp target) lane size writeData
        let w := { w with clint := { w.clint with
          mtimecmp := Function.update w.clint.mtimecmp target merged } }
        (writeMtimecmpForTarget w target merged, some 0)
      else (w, some (extractLane (w.clint.mtimecmp target) lane size))
    else if offset < 0xC000 then
      if isWrite then (w, none)
      else (w, some (extractLane w.clint.mtime (offset - 0xBFF8) size))
    else (w, none)

/-! ## UART -/

def handleUartRead (offset : Nat) (u : Uart) : Option Word :=
  if offset = 0 then some 0
  else if offset = 0x08 then some (u.txctrl.setWidth 64)
  else if offset = 0x10 then some (u.ie.setWidth 64)
  else if offset = 0x14 then
    let txwm : Word := if 0 < (u.txctrl >>> 16) &&& 7 then 1 else 0
    let rxwm : Word := if (u.rxctrl >>> 16) &&& 7 < u.rxFifoLen then 2 else 0
    some (txwm ||| rxwm)
  else none

/-- Append `[hid, byte]` to the ring; `false` when there is no room for entries. -/
def uartTxPush (u : Uart) (hid byte : BitVec 8) : Uart × Bool :=
  match u.txBuf, u.txWr with
  | some buf, some wr =>
    let ecap := u.txCap / 2
    if ecap = 0 then (u, false)
    else
      let e := wr.toNat % ecap
      ({ u with txBuf := some (Function.update (Function.update buf (2 * e) hid) (2 * e + 1) byte)
                txWr := some (wr + 1) }, true)
  | _, _ => (u, false)

def tryHandleUart (u : Uart) (pa : Word) (isWrite : Bool) (writeData : Word) (hid : BitVec 8) :
    Uart × Option Word :=
  if u.base = 0 then (u, none)
  else
    let offset := (pa - u.base).toNat
    if 0x100 ≤ offset then (u, none)
    else if !isWrite then (u, handleUartRead offset u)
    else if !(offset == 0 && u.txBuf.isSome) then (u, none)
    else if u.txCap < 2 then (u, some 0)
    else ((uartTxPush u hid (writeData.setWidth 8)).1, some 0)

/-- `FfiUartCtx::try_ecall`: the legacy console putchar call. -/
def uartTryEcall (u : Uart) (s : HartState) (extId funcId : Word) :
    Uart × HartState × Option Word :=
  if extId ≠ 1 ∨ funcId ≠ 0 then (u, s, none)
  else
    let r := uartTxPush u (s.mhartid.setWidth 8) ((s.gprs 10).setWidth 8)
    if r.2 then (r.1, { s with gprs := Function.update s.gprs 10 0 }, some 4) else (u, s, none)

/-! ## virtio-blk -/

/-- Replace the low or the high half of a 64-bit queue address. -/
def setLow (reg v : Word) : Word := (reg &&& 0xFFFFFFFF00000000) ||| (v &&& 0xFFFFFFFF)
def setHigh (reg v : Word) : Word := (reg &&& 0xFFFFFFFF) ||| ((v &&& 0xFFFFFFFF) <<< 32)

/-- Shift that selects a 32-bit feature page, taken modulo 64. -/
def featureShift (sel : BitVec 32) : Nat := (sel * 32).toNat % 64

def virtioWrite (v : VirtIo) (offset : Nat) (data : Word) : VirtIo × Option Word :=
  match offset with
  | 0x014 => ({ v with deviceFeaturesSel := data.setWidth 32 }, some 0)
  | 0x020 =>
    let sh := featureShift v.driverFeaturesSel
    ({ v with driverFeatures := (v.driverFeatures &&& ~~~(0xFFFFFFFF#64 <<< sh)) |||
        ((data &&& 0xFFFFFFFF) <<< sh) }, some 0)
  | 0x024 => ({ v with driverFeaturesSel := data.setWidth 32 }, some 0)
  | 0x030 => ({ v with queueSel := data.setWidth 32 }, some 0)
  | 0x038 =>
    let n : BitVec 32 := data.setWidth 32
    ({ v with queueNum := if n ≤ v.queueNumMax then n else v.queueNumMax }, some 0)
  | 0x044 => ({ v with queueReady := decide (data ≠ 0) }, some 0)
  | 0x050 => ({ v with notifyPending := true }, none)
  | 0x060 => ({ v with interruptStatus := v.interruptStatus ||| data.setWidth 32 }, some 0)
  | 0x064 =>
    let new := v.interruptStatus &&& ~~~(data.setWidth 32)
    if new = 0 ∧ v.interruptStatus ≠ 0 then (v, none)
    else ({ v with interruptStatus := new }, some 0)
  | 0x070 =>
    if data ≠ 0 then ({ v with status := data.setWidth 32 }, some 0)
    else
      ({ v with status := 0, deviceFeaturesSel := 0, driverFeaturesSel := 0, driverFeatures := 0,
                queueSel := 0, queueReady := false, interruptStatus := 0, queueDesc := 0,
                queueDriver := 0, queueDevice := 0 }, some 0)
  | 0x080 => ({ v with queueDesc := setLow v.queueDesc data }, some 0)
  | 0x084 => ({ v with queueDesc := setHigh v.queueDesc data }, some 0)
  | 0x090 => ({ v with queueDriver := setLow v.queueDriver data }, some 0)
  | 0x094 => ({ v with queueDriver := setHigh v.queueDriver data }, some 0)
  | 0x0A0 => ({ v with queueDevice := setLow v.queueDevice data }, some 0)
  | 0x0A4 => ({ v with queueDevice := setHigh v.queueDevice data }, some 0)
  | _ => (v, some 0)

def virtioRead (v : VirtIo) (offset : Nat) : Word :=
  match offset with
  | 0x000 => 0x74726976
  | 0x004 => 0x2
  | 0x008 => 0x2
  | 0x00C => 0x0
  | 0x010 => (1#64 <<< 32 >>> featureShift v.deviceFeaturesSel) &&& 0xFFFFFFFF
  | 0x034 => v.queueNumMax.setWidth 64
  | 0x060 => v.interruptStatus.setWidth 64
  | 0x070 => v.status.setWidth 64
  | 0x100 => v.capacity &&& 0xFFFFFFFF
  | 0x104 => (v.capacity >>> 32) &&& 0xFFFFFFFF
  | _ => 0

def tryHandleVirtio (dev : DevCtx) (pa : Word) (isWrite : Bool) (writeData : Word) :
    DevCtx × Option Word :=
  if dev.virtioBase = 0 then (dev, none)
  else
    let offset := (pa - dev.virtioBase).toNat
    if 0x200 ≤ offset then (dev, none)
    else if isWrite then
      let r := virtioWrite dev.virtio offset writeData
      ({ dev with virtio := r.1 }, r.2)
    else (dev, some (virtioRead dev.virtio offset))

/-! ## PLIC -/

namespace Plic

variable (p : Plic)

def numWords : Nat := (p.numSources + 31) / 32

/-- Best source so far and its priority, after looking at one more source. -/
def better (context : Nat) (best : Nat × Nat) (src : Nat) : Nat × Nat :=
  let word := src / 32
  let pri := (p.priority src).toNat
  if p.numWords ≤ word then best
  else if !p.pending src then best
  else if p.enable (context * p.numWords + word) &&& (1#32 <<< (src % 32)) = 0 then best
  else if pri ≤ (p.threshold context).toNat then best
  else if best.2 < pri then (src, pri)
  else best

/-- Source of highest priority above the threshold, lowest number first; 0 if none. -/
def findHighest (context : Nat) : Nat :=
  if p.numContexts ≤ context then 0
  else (((List.range p.numSources).map (· + 1)).foldl (p.better context) (0, 0)).1

def pendingMip (hartId : Nat) : Word :=
  let mCtx := 2 * hartId % 2 ^ 32
  let sCtx := mCtx + 1
  (if mCtx < p.numContexts ∧ 0 < p.findHighest mCtx then bit 11 else 0) |||
    (if sCtx < p.numContexts ∧ 0 < p.findHighest sCtx then bit 9 else 0)

def readPendingWord (wordIdx : Nat) : Word :=
  (List.range 32).foldl (fun acc i =>
    let src := wordIdx * 32 + i
    if src < 1 ∨ p.numSources < src then acc
    else if p.pending src then acc ||| bit i else acc) 0

def readEnableWord (context wordIdx : Nat) : Word :=
  if p.numContexts ≤ context ∨ p.numWords ≤ wordIdx then 0
  else (p.enable (context * p.numWords + wordIdx)).setWidth 64

def writeEnableWord (context wordIdx : Nat) (val : Word) : Plic :=
  if p.numContexts ≤ context ∨ p.numWords ≤ wordIdx then p
  else
    let validBits := p.numSources + 1 - wordIdx * 32
    let mask : BitVec 32 := if 32 ≤ validBits then 0xFFFFFFFF else (1#32 <<< validBits) - 1
    let mask := if wordIdx = 0 then mask &&& ~~~1 else mask
    { p with enable :=
        Function.update p.enable (context * p.numWords + wordIdx) (val.setWidth 32 &&& mask) }

def doClaim (context : Nat) : Plic × Nat :=
  let src := p.findHighest context
  if 0 < src then
    ({ p with pending := Function.update p.pending src false
              claimed := Function.update p.claimed context (BitVec.ofNat 32 src) }, src)
  else (p, src)

def doComplete (context : Nat) (src : BitVec 32) : Plic :=
  if src = 0 ∨ p.numSources < src.toNat then p
  else if p.claimed context = src then
    { p with claimed := Function.update p.claimed context 0
             pending := if p.level src.toNat then Function.update p.pending src.toNat true
               else p.pending }
  else p

def mmioRead (offset : Nat) : Plic × Word :=
  if offset < 0x1000 then
    let src := offset / 4
    if 1 ≤ src ∧ src ≤ p.numSources then (p, ((p.priority src) &&& 7).setWidth 64) else (p, 0)
  else if offset < 0x2000 then (p, p.readPendingWord ((offset - 0x1000) / 4))
  else if offset < 0x200000 then
    let rel := offset - 0x2000
    (p, p.readEnableWord (rel / 0x80) (rel % 0x80 / 4))
  else
    let rel := offset - 0x200000
    let context := rel / 0x1000
    if p.numContexts ≤ context then (p, 0)
    else if rel % 0x1000 = 0 then (p, ((p.threshold context) &&& 7).setWidth 64)
    else if rel % 0x1000 = 4 then
      let r := p.doClaim context
      (r.1, BitVec.ofNat 64 r.2)
    else (p, 0)

def mmioWrite (offset : Nat) (val : Word) : Plic :=
  if offset < 0x1000 then
    let src := offset / 4
    if 1 ≤ src ∧ src ≤ p.numSources then
      { p with priority := Function.update p.priority src ((val &&& 7).setWidth 8) }
    else p
  else if offset < 0x2000 then p
  else if offset < 0x200000 then
    let rel := offset - 0x2000
    p.writeEnableWord (rel / 0x80) (rel % 0x80 / 4) val
  else
    let rel := offset - 0x200000
    let context := rel / 0x1000
    if p.numContexts ≤ context then p
    else if rel % 0x1000 = 0 then
      { p with threshold := Function.update p.threshold context ((val &&& 7).setWidth 8) }
    else if rel % 0x1000 = 4 then p.doComplete context (val.setWidth 32)
    else p

end Plic

def plicRecomputeMip (s : HartState) (p : Plic) : HartState :=
  if s.imsicM.present || s.imsicS.present then s
  else
    let extMask := bit 11 ||| bit 9
    { s with mip := (s.mip &&& ~~~extMask) ||| p.pendingMip (s.mhartid.setWidth 32).toNat }

def tryHandlePlic (s : HartState) (dev : DevCtx) (pa : Word) (isWrite : Bool) (writeData : Word)
    (size : Nat) : HartState × DevCtx × Option Word :=
  match dev.plic with
  | none => (s, dev, none)
  | some p =>
    if p.base = 0 ∨ (size ≠ 2 ∧ size ≠ 4) then (s, dev, none)
    else
      let offset := (pa - p.base).toNat
      if 0x200000 + p.numContexts * 0x1000 ≤ offset then (s, dev, none)
      else if !isWrite then
        let r := p.mmioRead offset
        let s := if offset % 0x1000 = 4 ∧ 0x200000 ≤ offset then plicRecomputeMip s r.1 else s
        (s, { dev with plic := some r.1 }, some r.2)
      else
        let p := p.mmioWrite offset writeData
        (plicRecomputeMip s p, { dev with plic := some p }, some 0)

/-! ## IMSIC window -/

def tryHandleImsic (cfg : Features) (w : World) (pa val : Word) : World × Bool :=
  if !cfg.aia then (w, false)
  else
    match decodeImsicAddr cfg pa w.clint.numHarts with
    | none => (w, false)
    | some a =>
      if a.regOff = 0 then
        (w.updatePeer a.hart fun s => imsicEipSet s a.isSfile (val.setWidth 32), true)
      else if a.regOff = 8 then
        (w.updatePeer a.hart fun s => imsicEipClear s a.isSfile (val.setWidth 32), true)
      else (w, false)

end Pyremu
