import Mathlib.Data.Nat.Size
import Pyremu.Clint
import Pyremu.Csr
import Pyremu.Devices
import Pyremu.ImsicPython
import Pyremu.PlicLevel

/-!
# The interrupt check of the Python hart

One hart of a platform with the devices that raise its interrupts. The check
remembers that nothing was pending, under the version number that every
sensitive CSR write and every change of the CLINT moves on, and under the time
of the next timer. A version remembers here how often it was moved; the code
keeps the remainder by 2^16.
-/

namespace Pyremu

/-! ## Sources and versions -/

/-- `IntSource`, by priority. -/
inductive IntSource where
  | MEI | MSI | MTI | SEI | SSI | STI
  deriving DecidableEq, Repr

namespace IntSource

/-- The bit of `mip` and `mie`, which is the cause as well. -/
def code : IntSource → Nat
  | MEI => 11
  | MSI => 3
  | MTI => 7
  | SEI => 9
  | SSI => 1
  | STI => 5

def mipMask (i : IntSource) : Word := bit i.code

/-- `INT_PRIORITY`. -/
def priority : List IntSource := [MEI, MSI, MTI, SEI, SSI, STI]

end IntSource

/-- The bits of `mip` that hardware drives. -/
def hwMipMask : Word :=
  IntSource.MSI.mipMask ||| IntSource.MTI.mipMask ||| IntSource.STI.mipMask |||
    IntSource.MEI.mipMask ||| IntSource.SEI.mipMask

structure IntStateVersion where
  bumps : Nat
  deriving DecidableEq, Repr

namespace IntStateVersion

def modulus : Nat := 1 <<< 16

def value (v : IntStateVersion) : Nat := v.bumps % modulus

def bump (v : IntStateVersion) : IntStateVersion := ⟨v.bumps + 1⟩

end IntStateVersion

/-! ## CLINT -/

structure PyClint (numHarts : Nat) where
  /-- Bit 0 of each register. -/
  msip : Nat → Bool
  mtimecmp : Nat → Word
  mtime : Word

/-- `write_u64_bytes`; the value has `size` bytes. -/
def writeU64Bytes (cur : Word) (byteOff size : Nat) (val : Word) : Option Word :=
  if 8 < byteOff + size then none else some (mergeLane cur byteOff size val)

namespace PyClint

variable {n : Nat} (c : PyClint n)

/-- `mip` as `check_interrupt` returns it. -/
def checkInterrupt (hartId : Nat) : Word :=
  (if c.msip hartId then IntSource.MSI.mipMask else 0) |||
    (if c.mtimecmp hartId ≤ c.mtime ∧ 0 < c.mtimecmp hartId then IntSource.MTI.mipMask else 0)

/-- The time of the next wakeup; 0 when the comparator is not set. -/
def getNextTimerWakeup (hartId : Nat) : Word := if hartId < n then c.mtimecmp hartId else 0

def getMtimecmp (hartId : Nat) : Word := if hartId < n then c.mtimecmp hartId else 0

/-! Whether the harts are told of the change comes with the state. -/

def sendIpi (hartId : Nat) : PyClint n × Bool :=
  if hartId < n then ({ c with msip := Function.update c.msip hartId true }, true) else (c, false)

def clearIpi (hartId : Nat) : PyClint n × Bool :=
  if hartId < n then ({ c with msip := Function.update c.msip hartId false }, true) else (c, false)

def setMtimecmp (hartId : Nat) (val : Word) : PyClint n × Bool :=
  if hartId < n then ({ c with mtimecmp := Function.update c.mtimecmp hartId val }, true) else (c, false)

def tick (cycles : Nat) : PyClint n × Bool := ({ c with mtime := c.mtime + BitVec.ofNat 64 cycles }, false)

def write (offset size : Nat) (data : Word) : PyClint n × Bool :=
  let val := data &&& widthMask size
  if offset < 0x4000 then
    let hartId := offset / 4
    if hartId < n then ({ c with msip := Function.update c.msip hartId (val.getLsbD 0) }, true) else (c, false)
  else if offset < 0xBFF8 then
    let hartId := (offset - 0x4000) / 8
    if hartId < n then
      match writeU64Bytes (c.mtimecmp hartId) ((offset - 0x4000) % 8) size val with
      | some merged => ({ c with mtimecmp := Function.update c.mtimecmp hartId merged }, true)
      | none => (c, false)
    else (c, false)
  else if offset < 0xBFF8 + 8 then
    match writeU64Bytes c.mtime (offset - 0xBFF8) size val with
    | some merged => ({ c with mtime := merged }, false)
    | none => (c, false)
  else (c, false)

end PyClint

/-! ## External interrupts -/

/-- The controller of the interrupt mode: interrupt files, M and S of each hart, or a PLIC. -/
inductive ExtIntCtrl (numHarts : Nat) where
  | imsic (files : Nat → PyImsicFile × PyImsicFile)
  | plic (p : Plic)

namespace ExtIntCtrl

variable {n : Nat} (e : ExtIntCtrl n)

/-- The external interrupt line of a hart, to M or to S mode. -/
def line (hartId : Nat) (mmode : Bool) : Bool :=
  match e with
  | imsic files =>
    decide (hartId < n) &&
      decide ((if mmode then (files hartId).1 else (files hartId).2).peekTopei ≠ 0)
  | plic p =>
    let ctx := if mmode then 2 * hartId else 2 * hartId + 1
    decide (ctx < p.numContexts) && decide (0 < p.findHighest ctx)

def getPendingMip (hartId : Nat) : Word :=
  (if e.line hartId true then IntSource.MEI.mipMask else 0) |||
    (if e.line hartId false then IntSource.SEI.mipMask else 0)

/-- Changes the file of `_file_for`. -/
def mapFile (hartId : Nat) (mmode : Bool) (f : PyImsicFile → PyImsicFile) : ExtIntCtrl n :=
  match e with
  | imsic files =>
    if hartId < n then
      imsic (Function.update files hartId
        (if mmode then (f (files hartId).1, (files hartId).2) else ((files hartId).1, f (files hartId).2)))
    else e
  | plic _ => e

/-- `_resolve`: the hart, whether it is its M file, and the offset in the file. -/
def resolve (offset : Nat) : Option (Nat × Bool × Nat) :=
  let region := 2 ^ Nat.size (n - 1) * 0x1000
  if offset < region then
    if offset / 0x1000 < n then some (offset / 0x1000, true, offset % 0x1000) else none
  else if offset < 2 * region then
    let rel := offset - region
    if rel / 0x1000 < n then some (rel / 0x1000, false, rel % 0x1000) else none
  else none

def imsicWrite (offset : Nat) (data : Word) : ExtIntCtrl n :=
  match resolve (n := n) offset with
  | none => e
  | some (hartId, mmode, fileOff) =>
    if fileOff = 0 then e.mapFile hartId mmode fun f => f.setPending (data.setWidth 32)
    else if fileOff = 8 then e.mapFile hartId mmode fun f => f.clearPending (data.setWidth 32)
    else e

def mapPlic (f : Plic → Plic) : ExtIntCtrl n :=
  match e with
  | imsic _ => e
  | plic p => plic (f p)

def plicWrite (offset size : Nat) (data : Word) : ExtIntCtrl n :=
  if size = 2 ∨ size = 4 then e.mapPlic fun p => p.mmioWrite offset (data &&& widthMask size) else e

/-- A read takes a source when it meets a claim register. -/
def plicRead (offset size : Nat) : ExtIntCtrl n :=
  if size = 2 ∨ size = 4 then e.mapPlic fun p => (p.mmioRead offset).1 else e

end ExtIntCtrl

/-! ## The hart -/

/-- The CSRs with a part in interrupts; `other` is any other one, a plain store for the check. -/
inductive PyCsr where
  | mip | mie | mideleg | medeleg | mstatus | sstatus | sip | sie | stimecmp | stimecmph
  | mtvec | stvec | mepc | sepc | mcause | scause | mtval | stval
  | miselect | siselect | mireg | sireg | mtopei | stopei | mtopi | stopi | time | timeh
  | other (addr : BitVec 12)
  deriving DecidableEq, Repr

/-- `_INT_SENSITIVE_CSRS`. -/
def PyCsr.intSensitive : PyCsr → Bool
  | .mip | .mie | .mideleg | .mstatus | .stimecmp => true
  | _ => false

structure PyHart where
  mode : Mode
  pc : Word
  csrs : PyCsr → Word
  waiting : Bool
  wfiWoken : Bool
  reservationValid : Bool
  imsicSelectM : BitVec 32
  imsicSelectS : BitVec 32
  intStateVersion : IntStateVersion
  /-- The version at the last check that found nothing; `none` is -1. -/
  intCacheVersion : Option IntStateVersion
  intCacheNextTimer : Word

namespace PyHart

variable (h : PyHart)

/-- The setters that store a value and nothing else. -/
def setCsr (r : PyCsr) (v : Word) : PyHart := { h with csrs := Function.update h.csrs r v }

/-- `int_state_version.bump()`. -/
def bumped : PyHart := { h with intStateVersion := h.intStateVersion.bump }

def csrWriteRaw (r : PyCsr) (v : Word) : PyHart :=
  if r.intSensitive then (h.setCsr r v).bumped else h.setCsr r v

/-- `mip_val &= ~mask`. -/
def clearMip (mask : Word) : PyHart := h.csrWriteRaw .mip (h.csrs .mip &&& ~~~mask)

def evalStip (now stimecmpVal : Word) : PyHart :=
  if 0 < stimecmpVal ∧ stimecmpVal ≤ now then h.csrWriteRaw .mip (h.csrs .mip ||| bit 5)
  else h.clearMip (bit 5)

def writeStimecmph (now v : Word) : PyHart :=
  let merged := setHigh (h.csrs .stimecmp) v
  ((h.csrWriteRaw .stimecmp merged).csrWriteRaw .stimecmph (v &&& 0xFFFFFFFF)).evalStip now merged

def writeSstatus (v : Word) : PyHart :=
  let mstatus := (h.csrs .mstatus &&& ~~~sstatusWriteMask) ||| (v &&& sstatusWriteMask)
  (h.csrWriteRaw .mstatus mstatus).csrWriteRaw .sstatus (mstatus &&& sstatusReadMask)

def writeSie (v : Word) : PyHart :=
  let mideleg := h.csrs .mideleg
  h.csrWriteRaw .mie ((h.csrs .mie &&& ~~~mideleg) ||| (v &&& mideleg))

/-- The lines of the CLINT and of the external controller are read-only. -/
def writeMip (v : Word) : PyHart :=
  let roMask := bit 3 ||| bit 7 ||| bit 9 ||| bit 11
  h.csrWriteRaw .mip ((h.csrs .mip &&& roMask) ||| (v &&& ~~~roMask))

def writeSip (v : Word) : PyHart :=
  h.csrWriteRaw .mip ((h.csrs .mip &&& ~~~(bit 1)) ||| (v &&& bit 1))

def mie : Bool := decide (h.csrs .mstatus &&& mstatusMie ≠ 0)
def sie : Bool := decide (h.csrs .mstatus &&& mstatusSie ≠ 0)

/-- `_trap_deliver_smode` up to the acknowledgement of software interrupts. -/
def trapDeliverSmode (excCode : Nat) (tval : Word) (isInterrupt : Bool) : PyHart :=
  let tvec := h.csrs .stvec
  let h' := ((h.setCsr .sepc h.pc).setCsr .scause (mcauseVal (BitVec.ofNat 64 excCode) isInterrupt)).setCsr .stval tval
  { h'.setCsr .mstatus ((stackIe (h.csrs .mstatus) mstatusSie mstatusSpie &&& ~~~mstatusSpp) |||
      (modeToSpp h.mode <<< 8)) with
    mode := .S
    pc := if tvec &&& 3 = 0 ∨ isInterrupt = false then tvec &&& ~~~3
      else (tvec &&& ~~~3) + BitVec.ofNat 64 (4 * excCode) }

/-- `_trap_deliver_mmode` up to the acknowledgement of software interrupts. -/
def trapDeliverMmode (excCode : Nat) (tval : Word) (isInterrupt : Bool) : PyHart :=
  let tvec := h.csrs .mtvec
  let h' := ((h.setCsr .mepc h.pc).setCsr .mcause (mcauseVal (BitVec.ofNat 64 excCode) isInterrupt)).setCsr .mtval tval
  { h'.setCsr .mstatus (((stackIe (h.csrs .mstatus) mstatusMie mstatusMpie &&& ~~~mstatusMpp) |||
      (modeToMpp h.mode <<< 11)) &&& ~~~mstatusMprv) with
    mode := .M
    pc := if tvec &&& 3 = 0 ∨ isInterrupt = false then tvec &&& ~~~3
      else (tvec &&& ~~~3) + BitVec.ofNat 64 (4 * excCode) }

/-- `trap_mret` in M mode. -/
def mret : PyHart :=
  let mstatus := h.csrs .mstatus
  let restored := if mstatus &&& mstatusMpie ≠ 0 then mstatus ||| mstatusMie else mstatus &&& ~~~mstatusMie
  { h.setCsr .mstatus ((restored ||| mstatusMpie) &&& ~~~mstatusMpp) with
    mode := if mpp mstatus = 1 then .S else if mpp mstatus = 3 then .M else .U
    pc := h.csrs .mepc }

/-- `trap_sret` outside U mode. -/
def sret : PyHart :=
  let mstatus := h.csrs .mstatus
  let restored := if mstatus &&& mstatusSpie ≠ 0 then mstatus ||| mstatusSie else mstatus &&& ~~~mstatusSie
  { h.setCsr .mstatus ((restored ||| mstatusSpie) &&& ~~~mstatusSpp) with
    mode := if mstatus &&& mstatusSpp = 0 then .U else .S
    pc := h.csrs .sepc }

end PyHart

/-! ## The hart on its platform -/

instance neZero_alone : NeZero 1 := ⟨Nat.one_ne_zero⟩

structure PyBoard (numHarts : Nat) where
  id : Fin numHarts
  hasSstc : Bool
  hart : PyHart
  clint : PyClint numHarts
  ext : ExtIntCtrl numHarts

/-- What software and devices do, and the check between two instructions. -/
inductive PyIntOp where
  | csrWrite (r : PyCsr) (v : Word)
  | csrRead (r : PyCsr)
  | clintWrite (offset size : Nat) (data : Word)
  | sendIpi (hartId : Nat)
  | clearIpi (hartId : Nat)
  | setMtimecmp (hartId : Nat) (val : Word)
  | tick (cycles : Nat)
  | plicWrite (offset size : Nat) (data : Word)
  | plicRead (offset size : Nat)
  | setIrq (source : Nat) (pending : Bool)
  | imsicWrite (offset : Nat) (data : Word)
  | setIpNumber (hartId : Nat) (mmode : Bool) (eipNum : BitVec 32)
  | clearIpNumber (hartId : Nat) (mmode : Bool) (eipNum : BitVec 32)
  | exception (excCode : Nat) (tval : Word)
  | mret
  | sret
  | checkPendingInterrupts
  deriving DecidableEq, Repr

namespace PyBoard

variable {n : Nat} (b : PyBoard n)

def withHart (h : PyHart) : PyBoard n := { b with hart := h }

def csr (r : PyCsr) : Word := b.hart.csrs r

/-- A change of the CLINT, which bumps the version of every hart unless it is quiet. -/
def onClint (r : PyClint n × Bool) : PyBoard n :=
  { b with clint := r.1, hart := if r.2 then b.hart.bumped else b.hart }

/-- A change of the external controller; no version moves. -/
def withExt (e : ExtIntCtrl n) : PyBoard n := { b with ext := e }

/-- The file of this hart. -/
def file (mmode : Bool) : Option PyImsicFile :=
  match b.ext with
  | .imsic files => some (if mmode then (files b.id).1 else (files b.id).2)
  | .plic _ => none

def onFile (mmode : Bool) (f : PyImsicFile → PyImsicFile) : PyBoard n := b.withExt (b.ext.mapFile b.id mmode f)

/-! ### Traps -/

/-- `_imsic_clear_ipi_on_trap`. -/
def imsicClearIpiOnTrap (excCode : Nat) : PyBoard n :=
  (b.withHart (b.hart.clearMip (bit excCode))).onFile (decide (excCode = 3)) fun f =>
    if f.eidelivery = 0 then f.clearPending (BitVec.ofNat 32 excCode) else f

def clearIpi (hartId : Nat) : PyBoard n := b.onClint (b.clint.clearIpi hartId)

def trapDeliverSmode (excCode : Nat) (tval : Word) (isInterrupt : Bool) : PyBoard n :=
  let b' := b.withHart (b.hart.trapDeliverSmode excCode tval isInterrupt)
  if isInterrupt = false then b'
  else if excCode = 3 then (b'.clearIpi b.id).imsicClearIpiOnTrap excCode
  else if excCode = 1 then b'.imsicClearIpiOnTrap excCode
  else b'

def trapDeliverMmode (excCode : Nat) (tval : Word) (isInterrupt : Bool) : PyBoard n :=
  let b' := b.withHart (b.hart.trapDeliverMmode excCode tval isInterrupt)
  if isInterrupt = true ∧ excCode = 3 then (b'.clearIpi b.id).imsicClearIpiOnTrap excCode else b'

def deliverTrap (excCode : Nat) (tval : Word) (isInterrupt : Bool) : PyBoard n :=
  let b' := b.withHart { b.hart with
    reservationValid := false
    wfiWoken := b.hart.waiting || b.hart.wfiWoken
    waiting := false }
  let choice := if isInterrupt then b.csr .mideleg else b.csr .medeleg
  if b.hart.mode ≠ .M ∧ choice.getLsbD excCode = true then b'.trapDeliverSmode excCode tval isInterrupt
  else b'.trapDeliverMmode excCode tval isInterrupt

def trapMret : PyBoard n :=
  if b.hart.mode ≠ .M then b.deliverTrap 2 0x30200073 false else b.withHart b.hart.mret

def trapSret : PyBoard n :=
  if b.hart.mode = .U then b.deliverTrap 2 0x10200073 false else b.withHart b.hart.sret

/-! ### CSR accesses -/

/-- Claims an identity through `mtopei` or `stopei`. -/
def writeTopei (mmode : Bool) (v : Word) : PyBoard n :=
  let iid := iidOf v
  if iid = 0 then b
  else
    let b' := b.onFile mmode fun f => f.clearPending iid
    b'.withHart (b'.hart.clearMip (bit iid.toNat))

/-- `claim_mtopi_iid` and `claim_stopi_iid`: identities `timer` and `external` stand for a cause. -/
def claimIid (mmode : Bool) (timer external iid : BitVec 32) : PyBoard n :=
  let b' :=
    if iid = timer then b
    else if iid = external then b.onFile mmode fun f => f.readTopei.2
    else b.onFile mmode fun f => f.clearPending iid
  b'.withHart (b'.hart.clearMip (if iid = 0 then 0 else bit iid.toNat))

def claimMtopi (iid : BitVec 32) : PyBoard n :=
  let b' := b.claimIid true 7 11 iid
  let mtc := b'.clint.getMtimecmp b.id
  if iid = 7 ∧ 0 < mtc ∧ mtc ≤ b'.clint.mtime then
    b'.onClint (b'.clint.setMtimecmp b.id (b'.clint.mtime + 4))
  else b'

def claimStopi (iid : BitVec 32) : PyBoard n :=
  let b' := b.claimIid false 5 9 iid
  let stc := b'.csr .stimecmp
  if iid = 5 ∧ 0 < stc ∧ stc ≤ b'.clint.mtime then
    b'.withHart (b'.hart.csrWriteRaw .stimecmp (b'.clint.mtime + 4))
  else b'

def writeCsrImsic (r : PyCsr) (v : Word) : PyBoard n :=
  match r with
  | .miselect =>
    b.withHart ({ b.hart with imsicSelectM := v.setWidth 32 }.csrWriteRaw .miselect (v &&& 0xFFFFFFFF))
  | .siselect =>
    b.withHart ({ b.hart with imsicSelectS := v.setWidth 32 }.csrWriteRaw .siselect (v &&& 0xFFFFFFFF))
  | .mireg => b.onFile true fun f => f.csrWrite b.hart.imsicSelectM v
  | .sireg => b.onFile false fun f => f.csrWrite b.hart.imsicSelectS v
  | .mtopei => b.writeTopei true v
  | .stopei => b.writeTopei false v
  | .mtopi => b.claimMtopi (iidOf v)
  | .stopi => b.claimStopi (iidOf v)
  | _ => b.withHart (b.hart.csrWriteRaw r v)

def writeCsr (r : PyCsr) (v : Word) : PyBoard n :=
  match r with
  | .stimecmp => b.withHart ((b.hart.csrWriteRaw .stimecmp v).evalStip b.clint.mtime v)
  | .stimecmph => b.withHart (b.hart.writeStimecmph b.clint.mtime v)
  | .sstatus => b.withHart (b.hart.writeSstatus v)
  | .sie => b.withHart (b.hart.writeSie v)
  | .mip => b.withHart (b.hart.writeMip v)
  | .sip => b.withHart (b.hart.writeSip v)
  | r =>
    match b.ext with
    | .imsic _ => b.writeCsrImsic r v
    | .plic _ => b.withHart (b.hart.csrWriteRaw r v)

/-- A read of `mtopei` or `stopei` claims; the software identity `soft` takes its `mip` bit along. -/
def readTopei (mmode : Bool) (soft : Nat) (f : PyImsicFile) : Word × PyBoard n :=
  let val := f.readTopei.1
  let b' := b.onFile mmode fun f => f.readTopei.2
  (val, if val ≠ 0 ∧ (val >>> 16) &&& 0xFFFF = BitVec.ofNat 64 soft then b'.withHart (b'.hart.clearMip (bit soft))
    else b')

/-- A major identity with priority 1. -/
def topiValue (code : Nat) : Word := (BitVec.ofNat 64 code <<< 16) ||| 1

/-- A timer comparator that is set and has been reached. -/
def timerPending (mtime cmp : Word) : Prop := 0 < cmp ∧ cmp ≤ mtime

instance (mtime cmp : Word) : Decidable (timerPending mtime cmp) := inferInstanceAs (Decidable (_ ∧ _))

/-- An enabled bit of `mip`. -/
def enabledPending (code : Nat) : Bool := (b.csr .mip &&& b.csr .mie).getLsbD code

def readMtopi (f : PyImsicFile) : Word × PyBoard n :=
  if f.peekTopei ≠ 0 then ((11#64 <<< 16) ||| (f.peekTopei &&& 0xFF), b)
  else if b.enabledPending 3 then (topiValue 3, b.withHart (b.hart.clearMip (bit 3)))
  else if (b.csr .mie).getLsbD 7 = true ∧ timerPending b.clint.mtime (b.clint.getMtimecmp b.id) then (topiValue 7, b)
  else (0, b)

def readStopi (f : PyImsicFile) : Word × PyBoard n :=
  if f.peekTopei ≠ 0 then ((9#64 <<< 16) ||| (f.peekTopei &&& 0xFF), b)
  else if b.enabledPending 1 then (topiValue 1, b.withHart (b.hart.clearMip (bit 1)))
  else if (b.csr .mie).getLsbD 5 = true ∧
      (if b.csr .stimecmp = 0 then (b.csr .mip).getLsbD 5 = true
      else timerPending b.clint.mtime (b.csr .stimecmp)) then (topiValue 5, b)
  else (0, b)

def readCsrImsic (mfile sfile : PyImsicFile) (r : PyCsr) : Word × PyBoard n :=
  match r with
  | .miselect => (b.hart.imsicSelectM.setWidth 64, b)
  | .siselect => (b.hart.imsicSelectS.setWidth 64, b)
  | .mireg => (mfile.csrRead b.hart.imsicSelectM, b)
  | .sireg => (sfile.csrRead b.hart.imsicSelectS, b)
  | .mtopei => b.readTopei true 3 mfile
  | .stopei => b.readTopei false 1 sfile
  | .mtopi => b.readMtopi mfile
  | .stopi => b.readStopi sfile
  | r => (b.csr r, b)

def readCsr (r : PyCsr) : Word × PyBoard n :=
  match r with
  | .time => (b.clint.mtime, b)
  | .timeh => ((b.clint.mtime >>> 32) &&& 0xFFFFFFFF, b)
  | .sstatus => (b.csr .mstatus &&& sstatusReadMask, b)
  | .sie => (b.csr .mie &&& b.csr .mideleg, b)
  | .sip => (b.csr .mip &&& b.csr .mideleg, b)
  | r =>
    match b.ext with
    | .imsic files => b.readCsrImsic (files b.id).1 (files b.id).2 r
    | .plic _ => (b.csr r, b)

/-! ### The check -/

/-- The comparator that `_resolve_stip` looks at. -/
def stimecmp : Word := if b.hasSstc then b.csr .stimecmp else 0

/-- `_resolve_stip`: without a comparator STIP is what software wrote. -/
def stiPending : Bool :=
  if b.stimecmp = 0 then (b.csr .mip).getLsbD 5 else decide (b.stimecmp ≤ b.clint.mtime)

/-- The levels of all hardware sources. -/
def hwMip : Word :=
  b.clint.checkInterrupt b.id ||| (if b.stiPending then IntSource.STI.mipMask else 0) ||| b.ext.getPendingMip b.id

/-- `update_hw_mip`. -/
def updateHwMip (hwMipBits : Word) : PyBoard n :=
  b.withHart (b.hart.csrWriteRaw .mip ((b.csr .mip &&& ~~~hwMipMask) ||| hwMipBits))

/-- `_compute_next_timer`. -/
def computeNextTimer : Word :=
  let clintWake := b.clint.getNextTimerWakeup b.id
  let wakeup := if (b.csr .mie).getLsbD 7 then clintWake else 0
  let sCmp := b.csr .stimecmp
  if (b.csr .mie).getLsbD 5 = true ∧ sCmp ≠ 0 ∧ (wakeup = 0 ∨ sCmp < wakeup) then sCmp else wakeup

/-- The fast path. -/
def cacheHit : Bool :=
  match b.hart.intCacheVersion with
  | none => false
  | some v =>
    decide (v.value = b.hart.intStateVersion.value) &&
      (decide (b.hart.intCacheNextTimer = 0) || decide (b.clint.mtime < b.hart.intCacheNextTimer))

/-- Delegated interrupts are enabled globally. -/
def sModeGlobal : Bool := decide (b.hart.mode.rank < Mode.S.rank) || (decide (b.hart.mode = .S) && b.hart.sie)

/-- The test that the loop over `INT_PRIORITY` makes of each source. -/
def taken (i : IntSource) : Bool :=
  b.enabledPending i.code && !((b.csr .mideleg).getLsbD i.code && !b.sModeGlobal)

def rememberNothing : PyBoard n :=
  b.withHart { b.hart with intCacheVersion := some b.hart.intStateVersion, intCacheNextTimer := b.computeNextTimer }

/-- The part of the check behind the early return. -/
def deliverFirst : Bool × PyBoard n :=
  if b.hart.mode = .M ∧ b.hart.mie = false then (false, b)
  else if b.csr .mip &&& b.csr .mie = 0 then (false, b)
  else
    match IntSource.priority.find? b.taken with
    | some i => (true, b.deliverTrap i.code 0 true)
    | none => (false, b)

def checkPendingInterrupts : Bool × PyBoard n :=
  if b.cacheHit then (false, b)
  else
    let clintMip := b.clint.checkInterrupt b.id
    let hasPending := decide (clintMip ≠ 0) || b.stiPending
    let extMip := b.ext.getPendingMip b.id
    let synced := b.updateHwMip b.hwMip
    if hasPending = false ∧ extMip = 0 then (false, synced.rememberNothing)
    else synced.deliverFirst

def step (b : PyBoard n) : PyIntOp → PyBoard n
  | .csrWrite r v => b.writeCsr r v
  | .csrRead r => (b.readCsr r).2
  | .clintWrite offset size data => b.onClint (b.clint.write offset size data)
  | .sendIpi hartId => b.onClint (b.clint.sendIpi hartId)
  | .clearIpi hartId => b.clearIpi hartId
  | .setMtimecmp hartId val => b.onClint (b.clint.setMtimecmp hartId val)
  | .tick cycles => b.onClint (b.clint.tick cycles)
  | .plicWrite offset size data => b.withExt (b.ext.plicWrite offset size data)
  | .plicRead offset size => b.withExt (b.ext.plicRead offset size)
  | .setIrq source pending => b.withExt (b.ext.mapPlic fun p => p.setIrq source pending)
  | .imsicWrite offset data => b.withExt (b.ext.imsicWrite offset data)
  | .setIpNumber hartId mmode eipNum => b.withExt (b.ext.mapFile hartId mmode fun f => f.setPending eipNum)
  | .clearIpNumber hartId mmode eipNum => b.withExt (b.ext.mapFile hartId mmode fun f => f.clearPending eipNum)
  | .exception excCode tval => b.deliverTrap excCode tval false
  | .mret => b.trapMret
  | .sret => b.trapSret
  | .checkPendingInterrupts => b.checkPendingInterrupts.2

end PyBoard

end Pyremu
