import Mathlib.Data.Nat.Bits
import Pyremu.Lib.ByteMem
import Pyremu.Lib.Splice

/-!
# A virtqueue of the virtio-mmio transport

The rings lie in guest memory. The driver writes the available ring, the
device the used ring. `lastAvailIdx` is the device's own counter and lives on
the device side only; it is a plain integer, not a 16-bit one. `handed` is
not in the source: it lists the heads whose chains the device has taken since
the queue was made ready.
-/

namespace Virtio

open ByteMem

def VRING_DESC_F_NEXT : Nat := 1
def VRING_DESC_F_WRITE : Nat := 2
def VRING_DESC_SIZE : Nat := 16

structure VirtqDesc where
  addr : Nat
  length : Nat
  flags : Nat
  next : Nat
  deriving DecidableEq, Repr

structure VirtQueue where
  index : Nat
  numMax : Nat
  num : Nat
  ready : Bool
  desc : Nat
  driver : Nat
  device : Nat
  lastAvailIdx : Nat
  handed : List (Nat × Option (List VirtqDesc)) := []
  deriving DecidableEq, Repr

def mask32 (v : Nat) : Nat := v % 2 ^ 32

/-! ## Words of guest memory -/

def readU16 (m : Mem) (pa : Nat) : Nat := (readLe m pa 2).toNat

def writeU16 (m : Mem) (pa v : Nat) : Mem := writeLe m pa 2 (BitVec.ofNat 64 v)

theorem readU16_congr {m m' : Mem} {pa : Nat} (h : ∀ a, pa ≤ a → a < pa + 2 → m a = m' a) :
    readU16 m pa = readU16 m' pa := by
  rw [readU16, readU16, readLe_congr fun i hi => h (pa + i) (by omega) (by omega)]

/-- The low bytes of a stored word, read back. -/
theorem readLe_writeLe_toNat (m : Mem) (off : Nat) {n k v : Nat} (hk : k ≤ n) (hn : n ≤ 8) :
    (readLe (writeLe m off n (BitVec.ofNat 64 v)) off k).toNat = v % 2 ^ (8 * k) := by
  apply Nat.eq_of_testBit_eq
  intro i
  have hw : readLe (writeLe m off n (BitVec.ofNat 64 v)) off k =
      readLe (writeLe m off k (BitVec.ofNat 64 v)) off k := by
    apply readLe_congr
    intro j hj
    rw [writeLe_same (by omega), writeLe_same hj]
  rw [hw, BitVec.testBit_toNat, getLsbD_readLe_writeLe, Nat.testBit_mod_two_pow, BitVec.getLsbD_ofNat]
  by_cases hi : i < 8 * k
  · have h64 : i < 64 := by omega
    simp [hi, h64]
  · simp [hi]

theorem readU16_writeU16 (m : Mem) (pa v : Nat) : readU16 (writeU16 m pa v) pa = v % 65536 :=
  readLe_writeLe_toNat m pa (Nat.le_refl 2) (by omega)

theorem writeU16_other {m : Mem} {pa a v : Nat} (h : a < pa ∨ pa + 2 ≤ a) : writeU16 m pa v a = m a :=
  writeLe_other h

theorem readU16_lt (m : Mem) (pa : Nat) : readU16 m pa < 65536 := by
  have h : (readLe m pa 2).toNat < 2 ^ 16 := by
    apply Nat.lt_pow_two_of_testBit
    intro i hi
    rw [BitVec.testBit_toNat, getLsbD_readLe]
    have hge : ¬ i < 8 * 2 := by omega
    simp [hge]
  exact h

namespace VirtQueue

/-- Drop the activation and the ring addresses, keep the length. -/
def reset (q : VirtQueue) : VirtQueue :=
  { q with ready := false, desc := 0, driver := 0, device := 0, lastAvailIdx := 0, handed := [] }

/-- One half of an address register. -/
def setHalf (old val : Nat) (high : Bool) : Nat :=
  if high then mask32 old + mask32 val * 2 ^ 32 else old % 2 ^ 64 / 2 ^ 32 * 2 ^ 32 + mask32 val

def setDesc (q : VirtQueue) (val : Nat) (high : Bool) : VirtQueue :=
  { q with desc := setHalf q.desc val high }

def setDriver (q : VirtQueue) (val : Nat) (high : Bool) : VirtQueue :=
  { q with driver := setHalf q.driver val high }

def setDevice (q : VirtQueue) (val : Nat) (high : Bool) : VirtQueue :=
  { q with device := setHalf q.device val high }

def configured (q : VirtQueue) : Bool := q.num != 0 && q.desc != 0 && q.driver != 0 && q.device != 0

/-! ## The rings -/

def availIdx (q : VirtQueue) (m : Mem) : Nat := readU16 m (q.driver + 2)

def availHead (q : VirtQueue) (m : Mem) (i : Nat) : Nat := readU16 m (q.driver + (4 + i % q.num * 2))

/-- `struct.pack("<II", desc_head, mask32(length))` at the slot of the device's counter. -/
def pushUsed (q : VirtQueue) (m : Mem) (descHead length : Nat) : Mem :=
  writeLe m (q.device + 4 + q.lastAvailIdx % q.num * 8) 8
    (BitVec.ofNat 64 (descHead + mask32 length * 2 ^ 32))

def commitUsed (q : VirtQueue) (m : Mem) : Mem := writeU16 m (q.device + 2) q.lastAvailIdx

/-! ## Descriptors -/

def readDescriptor (q : VirtQueue) (m : Mem) (idx : Nat) : VirtqDesc where
  addr := (readLe m (q.desc + idx * VRING_DESC_SIZE) 8).toNat
  length := (readLe m (q.desc + idx * VRING_DESC_SIZE + 8) 4).toNat
  flags := (readLe m (q.desc + idx * VRING_DESC_SIZE + 12) 2).toNat
  next := (readLe m (q.desc + idx * VRING_DESC_SIZE + 14) 2).toNat

/-- The walk of `descriptor_chain`. The fuel is `num_max` less the descriptors taken,
so that the bound on the length of a chain ends it. -/
def chainFrom (read : Nat → VirtqDesc) (numMax maxDesc : Nat) :
    Nat → List VirtqDesc → List Nat → Nat → Option (List VirtqDesc)
  | 0, _, _, _ => none
  | fuel + 1, descs, seen, idx =>
    if numMax ≤ idx ∨ idx ∈ seen then none
    else
      let desc := read idx
      let descs := descs ++ [desc]
      if desc.flags &&& VRING_DESC_F_NEXT = 0 then some descs
      else if maxDesc ≤ descs.length then some descs
      else chainFrom read numMax maxDesc fuel descs (idx :: seen) desc.next

def descriptorChain (q : VirtQueue) (m : Mem) (head maxDesc : Nat) : Option (List VirtqDesc) :=
  chainFrom (q.readDescriptor m) q.numMax maxDesc q.numMax [] [] head

end VirtQueue

/-! ## The transport -/

/-- The register file of one device. `queues` is read below `queueNum` only. -/
structure VirtioMMIO where
  chainMaxDesc : Nat
  devId : Nat
  devFeats : Nat
  maxQueueNum : Nat
  cfgSpaceData : List (BitVec 8)
  irq : Nat
  queueNum : Nat
  queues : Nat → VirtQueue
  deviceFeaturesSel : Nat := 0
  driverFeaturesSel : Nat := 0
  driverFeatures : Nat := 0
  queueSel : Nat := 0
  status : Nat := 0
  interruptStatus : Nat := 0

/-- A device with its transport, the memory it shares with the guest, the level of its
interrupt line, the frames that wait for a receive buffer and the rest of its state. -/
structure Host (σ : Type*) where
  mmio : VirtioMMIO
  mem : Mem
  line : Bool
  rxFrames : List (List (BitVec 8))
  rxDropped : Nat
  dev : σ

def VIRTIO_MMIO_INT_VRING : Nat := 1

/-- The device's part of a request: whether it worked, and the length for the used ring. -/
abbrev Handler (σ : Type*) := VirtQueue → List VirtqDesc → Host σ → (Bool × Nat) × Host σ

namespace VirtioMMIO

def queueAt (mmio : VirtioMMIO) (index : Nat) : Option VirtQueue :=
  if index < mmio.queueNum then some (mmio.queues index) else none

def setQueue (mmio : VirtioMMIO) (index : Nat) (q : VirtQueue) : VirtioMMIO :=
  { mmio with queues := Function.update mmio.queues index q }

/-- Where `QueueSel` leads: queue 0 when it is out of range. -/
def currentQueue (mmio : VirtioMMIO) : Nat :=
  if mmio.queueSel < mmio.queueNum then mmio.queueSel else 0

def setQueueReady (mmio : VirtioMMIO) (val : Nat) : VirtioMMIO :=
  let i := mmio.currentQueue
  let q := mmio.queues i
  mmio.setQueue i (if val ≠ 0 then { q with ready := true, lastAvailIdx := 0, handed := [] }
    else { q with ready := false })

@[simp] theorem setQueue_same (mmio : VirtioMMIO) (i : Nat) (q : VirtQueue) :
    (mmio.setQueue i q).queues i = q := by simp [setQueue]

@[simp] theorem setQueue_queueNum (mmio : VirtioMMIO) (i : Nat) (q : VirtQueue) :
    (mmio.setQueue i q).queueNum = mmio.queueNum := rfl

end VirtioMMIO

namespace Host

variable {σ : Type*}

/-- `_set_irq_level`: source 0 is not delivered. -/
def setIrqLevel (h : Host σ) (level : Bool) : Host σ :=
  if h.mmio.irq ≠ 0 then { h with line := level } else h

def raiseIrq (h : Host σ) : Host σ := h.setIrqLevel true

def lowerIrqIfIdle (h : Host σ) : Host σ :=
  if h.mmio.interruptStatus = 0 then h.setIrqLevel false else h

def setQueue (h : Host σ) (i : Nat) (q : VirtQueue) : Host σ := { h with mmio := h.mmio.setQueue i q }

/-! ## Serving a queue -/

/-- `_process_chain`: a head that leads to no chain counts as a failed request. -/
def processChain (i : Nat) (handleRequest : Handler σ) (descHead : Nat) (h : Host σ) :
    Nat × Host σ :=
  let q := h.mmio.queues i
  let chain := q.descriptorChain h.mem descHead h.mmio.chainMaxDesc
  let h := h.setQueue i { q with handed := q.handed ++ [(descHead, chain)] }
  match chain with
  | none => (0, h)
  | some c =>
    let r := handleRequest (h.mmio.queues i) c h
    (r.1.2, r.2)

/-- Write a used entry and advance the device's counter. -/
def retire (i descHead written : Nat) (h : Host σ) : Host σ :=
  let q := h.mmio.queues i
  { h with mem := q.pushUsed h.mem descHead written }.setQueue i
    { q with lastAvailIdx := q.lastAvailIdx + 1 }

/-- One turn of the loop of `process_queue`. -/
def serveNext (i : Nat) (handleRequest : Handler σ) (h : Host σ) : Host σ :=
  let q := h.mmio.queues i
  let descHead := q.availHead h.mem q.lastAvailIdx
  let r := processChain i handleRequest descHead h
  retire i descHead r.1 r.2

/-- The end of `process_queue` and of `_fill_rx_buffers` when a chain was served. -/
def complete (i : Nat) (h : Host σ) : Host σ :=
  let h := { h with mem := (h.mmio.queues i).commitUsed h.mem }
  let h := { h with mmio := { h.mmio with
    interruptStatus := h.mmio.interruptStatus ||| VIRTIO_MMIO_INT_VRING } }
  h.raiseIrq

/-- The loop of `process_queue`, with the count of served chains. -/
def processLoop (i : Nat) (handleRequest : Handler σ) (maxDescriptors availIdx : Nat) :
    Nat → Nat → Host σ → Option (Host σ × Nat)
  | 0, _, _ => none
  | fuel + 1, processed, h =>
    if (h.mmio.queues i).lastAvailIdx = availIdx then some (h, processed)
    else if 0 < maxDescriptors ∧ maxDescriptors ≤ processed then some (h, processed)
    else processLoop i handleRequest maxDescriptors availIdx fuel (processed + 1)
      (serveNext i handleRequest h)

def processQueue (i : Nat) (handleRequest : Handler σ) (maxDescriptors fuel : Nat) (h : Host σ) :
    Option (Host σ × Bool) :=
  match h.mmio.queueAt i with
  | none => some (h, false)
  | some q =>
    if q.configured then
      let availIdx := q.availIdx h.mem
      match processLoop i handleRequest maxDescriptors availIdx fuel 0 h with
      | none => none
      | some (h, processed) =>
        let h := if 0 < processed then h.complete i else h
        some (h, (h.mmio.queues i).lastAvailIdx != availIdx)
    else some (h, false)

/-- `process_queue` again and again until it says that nothing is left, as its callers do. -/
def drainQueue (i : Nat) (handleRequest : Handler σ) (maxDescriptors fuel : Nat) :
    Nat → Host σ → Option (Host σ)
  | 0, _ => none
  | calls + 1, h =>
    match processQueue i handleRequest maxDescriptors fuel h with
    | none => none
    | some (h, true) => drainQueue i handleRequest maxDescriptors fuel calls h
    | some (h, false) => some h

end Host

/-! ## The receive queue of virtio-net -/

def VIRTIO_NET_RX_QUEUE : Nat := 0
def VIRTIO_NET_HDR_SIZE : Nat := 10

namespace Host

variable {σ : Type*}

/-- Put the frame at the front into the buffer of `desc` and retire its head. -/
def putFrame (descHead : Nat) (desc : VirtqDesc) (frame : List (BitVec 8))
    (rest : List (List (BitVec 8))) (h : Host σ) : Host σ :=
  let q := h.mmio.queues VIRTIO_NET_RX_QUEUE
  let h := { h with
    mem := Splice.patch h.mem desc.addr (List.replicate VIRTIO_NET_HDR_SIZE 0#8 ++ frame)
    rxFrames := rest }
  (h.setQueue VIRTIO_NET_RX_QUEUE { q with handed := q.handed ++ [(descHead, some [desc])] }).retire
    VIRTIO_NET_RX_QUEUE descHead (VIRTIO_NET_HDR_SIZE + frame.length)

/-- The loop of `_fill_rx_buffers`, along the frames that wait, with the count of filled buffers. -/
def fillLoop (availIdx : Nat) : List (List (BitVec 8)) → Nat → Host σ → Host σ × Nat
  | [], filled, h => (h, filled)
  | frame :: rest, filled, h =>
    let q := h.mmio.queues VIRTIO_NET_RX_QUEUE
    if q.lastAvailIdx = availIdx then (h, filled)
    else
      let descHead := q.availHead h.mem q.lastAvailIdx
      match (q.descriptorChain h.mem descHead 1).bind List.head? with
      | none => (h, filled)
      | some desc =>
        if desc.flags &&& VRING_DESC_F_WRITE = 0 then (h, filled)
        else if desc.length < VIRTIO_NET_HDR_SIZE + frame.length then
          fillLoop availIdx rest filled { h with rxFrames := rest, rxDropped := h.rxDropped + 1 }
        else fillLoop availIdx rest (filled + 1) (putFrame descHead desc frame rest h)

def fillRxBuffers (h : Host σ) : Host σ :=
  match h.mmio.queueAt VIRTIO_NET_RX_QUEUE with
  | none => h
  | some q =>
    if q.configured then
      let r := fillLoop (q.availIdx h.mem) h.rxFrames 0 h
      if 0 < r.2 then r.1.complete VIRTIO_NET_RX_QUEUE else r.1
    else h

end Host

end Virtio
