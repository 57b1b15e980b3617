import Mathlib.Data.Nat.Bitwise
import Pyremu.Devices
import Pyremu.Lib.Run
import Pyremu.Virtqueue

/-!
# virtio-blk behind two engines

The registers of the block device are implemented twice. In a round of the
engine a copy of them is worked on natively; at its end the copy goes back, the
queue is drained if a notification made the round end, and the store that made
it end is executed again by the Python device. The ring position, the memory,
the disk and the interrupt line are on the Python side only.
-/

namespace Virtio

open ByteMem
open Pyremu (VirtIo virtioRead virtioWrite)

/-! ## The disk and its requests -/

def SECTOR_SIZE : Nat := 512

structure Disk where
  image : List (BitVec 8)
  diskSize : Nat
  readOnly : Bool

namespace Disk

def capacitySectors (d : Disk) : Nat := d.diskSize / SECTOR_SIZE

/-- The capacity, eight bytes, little-endian. -/
def buildConfigSpace (d : Disk) : List (BitVec 8) :=
  (List.range 8).map fun i => BitVec.ofNat 8 (d.capacitySectors / 2 ^ (8 * i))

def pread (d : Disk) (len off : Nat) : List (BitVec 8) := (d.image.drop off).take len

/-- An empty write does not change the file. -/
def pwrite (d : Disk) (data : List (BitVec 8)) (off : Nat) : Disk :=
  { d with image := if data = [] then d.image else Splice.splice 0 d.image off data }

end Disk

def BLK_OUTHDR_SIZE : Nat := 16

/-- `_do_read`. -/
def doRead (m : Mem) (d : Disk) (sector bufPa bufLen : Nat) : Mem :=
  let offset := sector * SECTOR_SIZE
  Splice.patch m bufPa (if d.diskSize ≤ offset then List.replicate bufLen 0 else d.pread bufLen offset)

/-- `_do_write`: a write to a read-only image is ignored. -/
def doWrite (m : Mem) (d : Disk) (sector bufPa bufLen : Nat) : Disk :=
  if d.readOnly then d
  else
    let data := Splice.slice m bufPa bufLen
    let offset := sector * SECTOR_SIZE
    { d.pwrite data offset with diskSize := max d.diskSize (offset + data.length) }

/-- `_handle_request`: header, data and status, and whether it worked. -/
def blkRequest (chain : List VirtqDesc) (m : Mem) (d : Disk) : Bool × Mem × Disk :=
  match chain with
  | hdr :: data :: status :: _ =>
    if hdr.length < BLK_OUTHDR_SIZE then (false, m, d)
    else
      let reqType := (readLe m hdr.addr 4).toNat
      let sector := (readLe m (hdr.addr + 8) 8).toNat
      if reqType = 0 then (true, Splice.patch (doRead m d sector data.addr data.length) status.addr [0], d)
      else if reqType = 1 then (true, Splice.patch m status.addr [0], doWrite m d sector data.addr data.length)
      else if reqType = 4 then (true, Splice.patch m status.addr [0], d)
      else if reqType = 11 ∨ reqType = 13 then (true, Splice.patch m status.addr [2], d)
      else (false, Splice.patch m status.addr [1], d)
  | _ => (false, m, d)

abbrev VirtIOBlock := Host Disk

/-- The handler of the block device; a disk that grew shows in the configuration space. -/
def handleRequest : Handler Disk := fun _ chain h =>
  let r := blkRequest chain h.mem h.dev
  ((r.1, 0), { h with
    mem := r.2.1
    dev := r.2.2
    mmio := { h.mmio with
      cfgSpaceData :=
        if r.2.2.diskSize = h.dev.diskSize then h.mmio.cfgSpaceData else r.2.2.buildConfigSpace } })

/-! ## The Python device -/

namespace VirtIOBlock

variable (h : VirtIOBlock)

/-- `__init__` of the device and its transport. -/
def init (disk : Disk) (mem : Mem) (irq : Nat) : VirtIOBlock where
  mmio :=
    { chainMaxDesc := 3, devId := 2, devFeats := 2 ^ 32, maxQueueNum := 256
      cfgSpaceData := disk.buildConfigSpace, irq := irq, queueNum := 1
      queues := fun i => { index := i, numMax := 256, num := 256, ready := false, desc := 0, driver := 0, device := 0
                           lastAvailIdx := 0 } }
  mem := mem
  line := false
  rxFrames := []
  rxDropped := 0
  dev := disk

/-- `_read_config_space`: four bytes, zeros past the end. -/
def readConfigSpace (offset : Nat) : Nat :=
  let word := (h.mmio.cfgSpaceData.drop (offset - 0x100)).take 4
  (word.zipIdx.map fun b => b.1.toNat * 2 ^ (8 * b.2)).sum

def mmioRead (offset : Nat) : Nat :=
  if offset = 0x000 then 0x74726976
  else if offset = 0x004 then 2
  else if offset = 0x00C then 0
  else if offset = 0x0FC then 0
  else if offset = 0x008 then h.mmio.devId
  else if offset = 0x034 then h.mmio.maxQueueNum
  else if offset = 0x060 then h.mmio.interruptStatus
  else if offset = 0x070 then h.mmio.status
  else if offset = 0x010 then mask32 (h.mmio.devFeats / 2 ^ (h.mmio.deviceFeaturesSel * 32))
  else if 0x100 ≤ offset then h.readConfigSpace offset
  else 0

/-- A read of four bytes. -/
def read (offset : Nat) : Nat := h.mmioRead offset % 2 ^ 32

/-- A change of the queue that `QueueSel` selects. -/
def onCurrentQueue (f : VirtQueue → VirtQueue) : VirtIOBlock :=
  h.setQueue h.mmio.currentQueue (f (h.mmio.queues h.mmio.currentQueue))

/-- The reset of the transport. -/
def reset : VirtIOBlock :=
  Host.lowerIrqIfIdle { h with
    mmio := { h.mmio with
      status := 0, deviceFeaturesSel := 0, driverFeaturesSel := 0, driverFeatures := 0, queueSel := 0
      interruptStatus := 0
      queues := fun i => if i < h.mmio.queueNum then (h.mmio.queues i).reset else h.mmio.queues i } }

/-- The page that `DriverFeaturesSel` selects is replaced. -/
def writeDriverFeatures (val : Nat) : VirtIOBlock :=
  let shift := 2 ^ (h.mmio.driverFeaturesSel * 32)
  { h with mmio := { h.mmio with
      driverFeatures := Nat.ldiff h.mmio.driverFeatures ((2 ^ 32 - 1) * shift) ||| (mask32 val * shift) } }

def mmioWrite (offset val : Nat) : VirtIOBlock :=
  if offset = 0x020 then h.writeDriverFeatures val
  else if offset = 0x070 then
    if val = 0 then h.reset else { h with mmio := { h.mmio with status := val } }
  else if offset = 0x014 then { h with mmio := { h.mmio with deviceFeaturesSel := val } }
  else if offset = 0x024 then { h with mmio := { h.mmio with driverFeaturesSel := val } }
  else if offset = 0x030 then { h with mmio := { h.mmio with queueSel := val } }
  else if offset = 0x038 then h.onCurrentQueue fun q => { q with num := min val h.mmio.maxQueueNum }
  else if offset = 0x044 then { h with mmio := h.mmio.setQueueReady val }
  else if offset = 0x064 then
    Host.lowerIrqIfIdle { h with mmio := { h.mmio with interruptStatus := Nat.ldiff h.mmio.interruptStatus val } }
  else if offset = 0x080 then h.onCurrentQueue fun q => q.setDesc val false
  else if offset = 0x084 then h.onCurrentQueue fun q => q.setDesc val true
  else if offset = 0x090 then h.onCurrentQueue fun q => q.setDriver val false
  else if offset = 0x094 then h.onCurrentQueue fun q => q.setDriver val true
  else if offset = 0x0A0 then h.onCurrentQueue fun q => q.setDevice val false
  else if offset = 0x0A4 then h.onCurrentQueue fun q => q.setDevice val true
  else h

/-- The ring index has 16 bits, so a pass that ends serves fewer chains than that, or its maximum. -/
def passFuel (maxDescriptors : Nat) : Nat := 2 ^ 16 + maxDescriptors + 1

/-- `process_queue` of the device; `none` if the pass does not end. -/
def processQueue (maxDescriptors : Nat) : Option (VirtIOBlock × Bool) :=
  Host.processQueue 0 handleRequest maxDescriptors (passFuel maxDescriptors) h

/-- `_notify_queue`. -/
def notifyQueue (index : Nat) : Option VirtIOBlock :=
  match h.mmio.queueAt index with
  | none => some h
  | some q => if q.ready then (h.processQueue 0).map Prod.fst else some h

/-- A write of four bytes while no notification has been served. -/
def write (offset val : Nat) : Option VirtIOBlock :=
  if offset = 0x050 then h.notifyQueue val else some (h.mmioWrite offset val)

/-! ## Rounds of the engine -/

/-- `_native_marshal_virtio`. -/
def marshal : VirtIo where
  capacity := BitVec.ofNat 64 h.dev.capacitySectors
  queueNumMax := BitVec.ofNat 32 h.mmio.maxQueueNum
  deviceFeaturesSel := BitVec.ofNat 32 h.mmio.deviceFeaturesSel
  driverFeaturesSel := BitVec.ofNat 32 h.mmio.driverFeaturesSel
  driverFeatures := BitVec.ofNat 64 h.mmio.driverFeatures
  queueSel := BitVec.ofNat 32 h.mmio.queueSel
  queueNum := BitVec.ofNat 32 (h.mmio.queues 0).num
  queueReady := (h.mmio.queues 0).ready
  queueDesc := BitVec.ofNat 64 (h.mmio.queues 0).desc
  queueDriver := BitVec.ofNat 64 (h.mmio.queues 0).driver
  queueDevice := BitVec.ofNat 64 (h.mmio.queues 0).device
  status := BitVec.ofNat 32 h.mmio.status
  interruptStatus := BitVec.ofNat 32 h.mmio.interruptStatus
  notifyPending := false

/-- The registers go back to the device, the ring position stays. -/
def copyBack (v : VirtIo) : VirtIOBlock :=
  { h with mmio := { h.mmio with
      deviceFeaturesSel := v.deviceFeaturesSel.toNat
      driverFeaturesSel := v.driverFeaturesSel.toNat
      driverFeatures := v.driverFeatures.toNat
      queueSel := v.queueSel.toNat
      queues := Function.update h.mmio.queues 0
        { h.mmio.queues 0 with
          num := v.queueNum.toNat
          ready := v.queueReady
          desc := v.queueDesc.toNat
          driver := v.queueDriver.toNat
          device := v.queueDevice.toNat }
      status := v.status.toNat
      interruptStatus := v.interruptStatus.toNat } }

/-- `_max_batches`. -/
def maxBatches : Nat := 256

/-- The loop over batches, and whether it has cleared the queue. -/
def drain (processBatch : Nat) : Nat → VirtIOBlock → Option (VirtIOBlock × Bool)
  | 0, h => some (h, false)
  | guard + 1, h =>
    match h.processQueue processBatch with
    | none => none
    | some (h, false) => some (h, true)
    | some (h, true) => drain processBatch guard h

/-- `_native_unmarshal_virtio`, with the record that the notification has been served. -/
def unmarshal (processBatch : Nat) (v : VirtIo) : Option (VirtIOBlock × Bool) :=
  if v.notifyPending then drain processBatch maxBatches (h.copyBack v) else some (h.copyBack v, false)

end VirtIOBlock

/-- The device between accesses; `ffi` is the copy of the registers in a round. -/
structure Engines where
  host : VirtIOBlock
  ffi : Option VirtIo

/-- An access, where a write stores the low four bytes of a register of the hart, a store of the
guest to its memory, or a border of a round. -/
inductive VirtioOp where
  | read (offset : Fin 0x200)
  | write (offset : Fin 0x200) (rs2 : BitVec 64)
  | store (addr : Nat) (data : List (BitVec 8))
  | enterRound
  | leaveRound
  deriving DecidableEq

namespace Engines

variable (processBatch : Nat) (e : Engines)

def read (offset : Nat) : Nat :=
  match e.ffi with
  | none => e.host.read offset
  | some v => (virtioRead v offset).toNat % 2 ^ 32

/-- A store that the engine passes on: the round ends, the queue is drained if it was notified, and
the store is executed again unless it is a notification that has been served. -/
def replay (v : VirtIo) (offset val : Nat) : Option Engines :=
  match e.host.unmarshal processBatch v with
  | none => none
  | some (h, served) =>
    if served ∧ offset = 0x050 then some ⟨h, none⟩
    else (h.write offset val).map fun h => ⟨h, none⟩

def write (offset : Nat) (rs2 : BitVec 64) : Option Engines :=
  let val := (rs2.setWidth 32).toNat
  match e.ffi with
  | none => (e.host.write offset val).map fun h => ⟨h, none⟩
  | some v =>
    match virtioWrite v offset rs2 with
    | (v, some _) => some { e with ffi := some v }
    | (v, none) => e.replay processBatch v offset val

def step : VirtioOp → Option Engines
  | .read _ => some e
  | .write offset rs2 => e.write processBatch offset rs2
  | .store addr data => some { e with host := { e.host with mem := Splice.patch e.host.mem addr data } }
  | .enterRound => some { e with ffi := some (e.ffi.getD e.host.marshal) }
  | .leaveRound =>
    match e.ffi with
    | none => some e
    | some v => (e.host.unmarshal processBatch v).map fun r => ⟨r.1, none⟩

end Engines

/-- The same accesses made by the Python device alone. -/
def VirtIOBlock.step (h : VirtIOBlock) : VirtioOp → Option VirtIOBlock
  | .write offset rs2 => h.write offset (rs2.setWidth 32).toNat
  | .store addr data => some { h with mem := Splice.patch h.mem addr data }
  | _ => some h

end Virtio
